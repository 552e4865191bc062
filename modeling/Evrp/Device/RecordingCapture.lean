import Evrp.Device.ListenerCapture
import Evrp.Device.RecordingOwnership

/-!
# What the recording calls return of one recording

A recording lasts from the StartRecording that opened its devices to the first
cancel, by whomever. While it lasts, the calls of all sessions together return
what is gone from the queues of its devices, in order and once. The listener of
the service is followed through the calls as one listening session.
-/

namespace Evrp

namespace LocalInputListener

/-- Arrivals do not touch what the listener holds. -/
theorem State.Accounted.arrive {s t : State} (h : s.Accounted) {fd : ℕ} {ev : Event}
    (harrive : LocalInputListener.arrive fd ev s = some t) : t.Accounted := by
  obtain ⟨f, hf, rfl⟩ := Option.map_eq_some_iff.mp harrive
  refine ⟨h.listening, h.bounded, h.paths, h.kinds, h.ready, h.balance, fun fd' => ?_, h.disposed⟩
  rw [← h.files fd']
  by_cases heq : fd' = fd
  · subst heq
    simp [hf]
  · simp [Function.update_of_ne heq]

theorem listeningActive_cancelListening (s : State) :
    (cancelListening s).listeningActive = false := by
  unfold cancelListening
  split
  · rfl
  · rw [closeDevices_eq]

/-- A session goes on as it began. -/
theorem Session.Exact.run {devices : List TrackedDevice} {labels more : List Label}
    {s t : Session} (hs : s.Exact devices labels) (h : Machine.run Session.step s more = some t) :
    t.Exact devices (labels ++ more) := by
  induction more using List.reverseRecOn generalizing t with
  | nil =>
    rw [List.append_nil]
    exact Option.some.inj h ▸ hs
  | append_singleton more a ih =>
    obtain ⟨u, hu, hstep⟩ := (Machine.run_concat_some _).mp h
    rw [← List.append_assoc]
    exact (ih hu).step hstep

end LocalInputListener

namespace GrpcInputListenService

open LocalInputListener (Answers Session Batch TrackedDevice)

/-- The listener is in order. -/
def State.InOrder (s : State) : Prop := s.listener.Accounted

theorem inOrder_initial (now : ℤ) : (initial now).InOrder :=
  LocalInputListener.accounted_after []

theorem inOrder_handlerMove {s t : State} {i : ℕ} {h : Handler} {answers : Answers}
    (hs : s.InOrder) (hmove : HandlerMove s i h answers t) : t.InOrder := by
  have haccounted : s.listener.Accounted := hs
  cases hmove with
  | move pc => exact haccounted
  | store time pc => exact haccounted
  | act pc => exact haccounted
  | cancel pc => exact haccounted.cancel
  | stop response => exact haccounted.cancel
  | started kinds pc => exact haccounted.start answers (s.starts.length + 1) kinds
  | refused kinds pc => exact haccounted.start answers (s.starts.length + 1) kinds
  | wait timeoutMs pc => exact haccounted.wait answers timeoutMs
  | read response => exact haccounted.read answers

theorem inOrder_step {timeoutMs : ℤ} {s t : State} {a : Label} (hs : s.InOrder)
    (h : step timeoutMs s a = some t) : t.InOrder := by
  cases a with
  | tick ns =>
    obtain rfl := Option.some.inj h
    exact hs
  | arrive fd ev =>
    obtain ⟨f, -, h⟩ := Option.bind_eq_some_iff.mp h
    obtain ⟨listener, hlistener, rfl⟩ := Option.map_eq_some_iff.mp h
    exact LocalInputListener.State.Accounted.arrive hs hlistener
  | request session status request =>
    obtain rfl := Option.some.inj h
    exact hs
  | handler i isCancelled answers =>
    obtain ⟨handler, -, h⟩ := Option.bind_eq_some_iff.mp h
    exact inOrder_handlerMove hs (handlerMove_of_step h).2
  | watchdog =>
    have haccounted : s.listener.Accounted := hs
    obtain rfl := Option.some.inj h
    cases hpc : s.watchdog <;> simp only [watchdogStep, hpc]
    case asleep =>
      split
      · exact haccounted
      · exact haccounted
    case cancel reading => exact haccounted.cancel
    all_goals exact haccounted

/-- The arrival of a step in a descriptor. -/
def Label.arrival (fd : ℕ) : Label → Option Event
  | .arrive fd' ev => if fd' = fd then some ev else none
  | _ => none

/-- What has arrived in a descriptor, in order. -/
def arrivedIn (fd : ℕ) (labels : List Label) : List Event := labels.filterMap (Label.arrival fd)

theorem arrivedIn_concat (fd : ℕ) (labels : List Label) (a : Label) :
    arrivedIn fd (labels ++ [a]) = arrivedIn fd labels ++ (a.arrival fd).toList := by
  rw [arrivedIn, List.filterMap_append]
  cases ha : a.arrival fd <;> simp [arrivedIn, ha]

/-- What the calls returned since the start of a recording, read by read. -/
structure Captures (u : State) (after : List Label) (t : State) (batches : List Batch)
    (labels : List LocalInputListener.Label) : Prop where
  arrivals : ∀ fd, LocalInputListener.arrivals fd labels = arrivedIn fd after
  exact : Session.Exact u.listener.devices labels ⟨t.listener, none, batches⟩
  delivered : ∃ new, t.delivered = u.delivered ++ new ∧
    new.map Delivery.inputEvent = batches.flatMap Batch.inputEvents

/-- The recording goes on. -/
def SameRecording (u t : State) : Prop :=
  t.starts.length = u.starts.length ∧ t.listener.listeningActive = true

theorem map_inputEvent_deliveries (session latest : ℕ) (batches : List Batch) :
    (deliveries session latest batches).map Delivery.inputEvent =
      batches.flatMap Batch.inputEvents := by
  rw [deliveries, List.map_flatMap]
  refine List.flatMap_congr fun b _ => ?_
  rw [List.map_map, Batch.inputEvents]
  simp only [ne_eq, decide_not]
  rfl

/-- Recordings are only added. -/
theorem starts_handlerMove {s t : State} {i : ℕ} {h : Handler} {answers : Answers}
    (hmove : HandlerMove s i h answers t) : s.starts.length ≤ t.starts.length := by
  cases hmove with
  | started kinds pc =>
    simp only [State.goto, List.length_append, List.length_singleton]
    omega
  | _ => exact Nat.le_refl _

theorem starts_step {timeoutMs : ℤ} {s t : State} {a : Label} (h : step timeoutMs s a = some t) :
    s.starts.length ≤ t.starts.length := by
  cases a with
  | tick ns =>
    obtain rfl := Option.some.inj h
    exact Nat.le_refl _
  | arrive fd ev =>
    obtain ⟨f, -, h⟩ := Option.bind_eq_some_iff.mp h
    obtain ⟨listener, -, rfl⟩ := Option.map_eq_some_iff.mp h
    exact Nat.le_refl _
  | request session status request =>
    obtain rfl := Option.some.inj h
    exact Nat.le_refl _
  | handler i isCancelled answers =>
    obtain ⟨handler, -, h⟩ := Option.bind_eq_some_iff.mp h
    exact starts_handlerMove (handlerMove_of_step h).2
  | watchdog =>
    obtain rfl := Option.some.inj h
    unfold watchdogStep
    split
    · split <;> exact Nat.le_refl _
    all_goals exact Nat.le_refl _

section Segment

variable {u s t : State} {after : List Label} {batches : List Batch}
  {labels : List LocalInputListener.Label}

/-- A step that leaves the listener and the deliveries alone. -/
theorem Captures.frame (hs : Captures u after s batches labels) {a : Label}
    (ha : ∀ fd, a.arrival fd = none) (hlistener : t.listener = s.listener)
    (hdelivered : t.delivered = s.delivered) : Captures u (after ++ [a]) t batches labels := by
  refine ⟨fun fd => ?_, hlistener ▸ hs.exact, hdelivered ▸ hs.delivered⟩
  rw [arrivedIn_concat, ha fd, Option.toList_none, List.append_nil]
  exact hs.arrivals fd

theorem captures_handlerMove (hs : Captures u after s batches labels) (horder : s.InOrder)
    (hle : u.starts.length ≤ s.starts.length) {a : Label} (ha : ∀ fd, a.arrival fd = none)
    {i : ℕ} {h : Handler} {answers : Answers} (hmove : HandlerMove s i h answers t)
    (ht : SameRecording u t) :
    ∃ batches labels, Captures u (after ++ [a]) t batches labels := by
  have haccounted : s.listener.Accounted := horder
  cases hmove with
  | move pc => exact ⟨_, _, hs.frame ha rfl rfl⟩
  | store time pc => exact ⟨_, _, hs.frame ha rfl rfl⟩
  | act pc => exact ⟨_, _, hs.frame ha rfl rfl⟩
  | cancel pc =>
    exact absurd (ht.2.symm.trans (LocalInputListener.listeningActive_cancelListening s.listener))
      Bool.true_eq_false.mp
  | stop response =>
    exact absurd (ht.2.symm.trans (LocalInputListener.listeningActive_cancelListening s.listener))
      Bool.true_eq_false.mp
  | started kinds pc =>
    have hlength := ht.1
    simp only [State.goto, List.length_append, List.length_singleton] at hlength
    omega
  | refused kinds pc hacts hstart =>
    exact ⟨_, _, hs.frame ha (haccounted.startListening_false hstart) rfl⟩
  | wait timeoutMs pc =>
    refine ⟨batches, labels ++ [.wait answers timeoutMs], fun fd => ?_, ?_, hs.delivered⟩
    · rw [LocalInputListener.arrivals_concat, arrivedIn_concat, ha fd, hs.arrivals fd]
      rfl
    · exact hs.exact.step (a := .wait answers timeoutMs) rfl
  | read response =>
    have hread := LocalInputListener.run_readLabels answers s.listener batches
    refine ⟨_, labels ++ LocalInputListener.readLabels answers s.listener, fun fd => ?_,
      hs.exact.run hread, ?_⟩
    · rw [LocalInputListener.arrivals_readLabels, arrivedIn_concat, ha fd, Option.toList_none,
        List.append_nil]
      exact hs.arrivals fd
    · obtain ⟨new, hnew, hevents⟩ := hs.delivered
      refine ⟨new ++ deliveries h.session s.starts.length
        (LocalInputListener.readInputEvents answers s.listener).2, ?_, ?_⟩
      · simp only [State.goto, State.act]
        rw [hnew, List.append_assoc]
      · rw [List.map_append, hevents, map_inputEvent_deliveries, List.flatMap_append]

/-- Only a start makes the listener listen. -/
theorem listening_handlerMove (horder : s.InOrder) {i : ℕ} {h : Handler} {answers : Answers}
    (hmove : HandlerMove s i h answers t) (hlisten : t.listener.listeningActive = true)
    (hstarts : t.starts.length ≤ s.starts.length) : s.listener.listeningActive = true := by
  have haccounted : s.listener.Accounted := horder
  cases hmove with
  | move pc => exact hlisten
  | store time pc => exact hlisten
  | act pc => exact hlisten
  | cancel pc =>
    exact absurd (hlisten.symm.trans
      (LocalInputListener.listeningActive_cancelListening s.listener)) Bool.true_eq_false.mp
  | stop response =>
    exact absurd (hlisten.symm.trans
      (LocalInputListener.listeningActive_cancelListening s.listener)) Bool.true_eq_false.mp
  | started kinds pc =>
    simp only [State.goto, List.length_append, List.length_singleton] at hstarts
    omega
  | refused kinds pc hacts hstart =>
    simp only [State.goto, haccounted.startListening_false hstart] at hlisten
    exact hlisten
  | wait timeoutMs pc =>
    obtain ⟨ready, hwait⟩ :=
      LocalInputListener.waitForInputEvent_frame answers timeoutMs s.listener
    simp only [State.goto, hwait] at hlisten
    exact hlisten
  | read response =>
    simp only [State.goto, LocalInputListener.readInputEvents_eq] at hlisten
    split at hlisten <;> exact hlisten

theorem listening_step {timeoutMs : ℤ} {a : Label} (horder : s.InOrder)
    (h : step timeoutMs s a = some t) (hlisten : t.listener.listeningActive = true)
    (hstarts : t.starts.length ≤ s.starts.length) : s.listener.listeningActive = true := by
  cases a with
  | tick ns =>
    obtain rfl := Option.some.inj h
    exact hlisten
  | arrive fd ev =>
    obtain ⟨f, -, h⟩ := Option.bind_eq_some_iff.mp h
    obtain ⟨listener, hlistener, rfl⟩ := Option.map_eq_some_iff.mp h
    obtain ⟨g, -, rfl⟩ := Option.map_eq_some_iff.mp hlistener
    exact hlisten
  | request session status request =>
    obtain rfl := Option.some.inj h
    exact hlisten
  | handler i isCancelled answers =>
    obtain ⟨handler, -, h⟩ := Option.bind_eq_some_iff.mp h
    exact listening_handlerMove horder (handlerMove_of_step h).2 hlisten hstarts
  | watchdog =>
    obtain rfl := Option.some.inj h
    unfold watchdogStep at hlisten
    split at hlisten
    · split at hlisten <;> exact hlisten
    · exact hlisten
    · exact hlisten
    · exact absurd (hlisten.symm.trans
        (LocalInputListener.listeningActive_cancelListening s.listener)) Bool.true_eq_false.mp

theorem captures_step {timeoutMs : ℤ} {a : Label} (hs : Captures u after s batches labels)
    (horder : s.InOrder) (hle : u.starts.length ≤ s.starts.length)
    (h : step timeoutMs s a = some t) (ht : SameRecording u t) :
    ∃ batches labels, Captures u (after ++ [a]) t batches labels := by
  cases a with
  | tick ns =>
    obtain rfl := Option.some.inj h
    exact ⟨_, _, hs.frame (fun _ => rfl) rfl rfl⟩
  | arrive fd ev =>
    obtain ⟨f, -, h⟩ := Option.bind_eq_some_iff.mp h
    obtain ⟨listener, hlistener, rfl⟩ := Option.map_eq_some_iff.mp h
    refine ⟨batches, labels ++ [.arrive fd ev], fun fd' => ?_, ?_, hs.delivered⟩
    · rw [LocalInputListener.arrivals_concat, arrivedIn_concat, hs.arrivals fd']
      rfl
    · refine hs.exact.step (a := .arrive fd ev) ?_
      simp only [Session.step, hlistener, Option.map_some]
  | request session status request =>
    obtain rfl := Option.some.inj h
    exact ⟨_, _, hs.frame (fun _ => rfl) rfl rfl⟩
  | handler i isCancelled answers =>
    obtain ⟨handler, -, h⟩ := Option.bind_eq_some_iff.mp h
    exact captures_handlerMove hs horder hle (fun _ => rfl) (handlerMove_of_step h).2 ht
  | watchdog =>
    obtain rfl := Option.some.inj h
    have hlisten := ht.2
    unfold watchdogStep at hlisten ⊢
    split at hlisten
    · split <;> exact ⟨_, _, hs.frame (fun _ => rfl) rfl rfl⟩
    · exact ⟨_, _, hs.frame (fun _ => rfl) rfl rfl⟩
    · exact ⟨_, _, hs.frame (fun _ => rfl) rfl rfl⟩
    · exact absurd (hlisten.symm.trans
        (LocalInputListener.listeningActive_cancelListening s.listener)) Bool.true_eq_false.mp

/-- The account of a recording from its start to any moment at which it still runs. -/
theorem captures_run {timeoutMs : ℤ} (hu : Captures u [] u [] []) (horder : u.InOrder)
    (h : Machine.run (step timeoutMs) u after = some t) :
    t.InOrder ∧ u.starts.length ≤ t.starts.length ∧
      (SameRecording u t → ∃ batches labels, Captures u after t batches labels) := by
  induction after using List.reverseRecOn generalizing t with
  | nil =>
    obtain rfl := Option.some.inj h
    exact ⟨horder, Nat.le_refl _, fun _ => ⟨_, _, hu⟩⟩
  | append_singleton after a ih =>
    obtain ⟨s, hs, hstep⟩ := (Machine.run_concat_some _).mp h
    obtain ⟨horder', hle, hcaptures⟩ := ih hs
    have hle' := starts_step hstep
    refine ⟨inOrder_step horder' hstep, hle.trans hle', fun ht => ?_⟩
    have hlength := ht.1
    have hsame : SameRecording u s := ⟨by omega, listening_step horder' hstep ht.2 (by omega)⟩
    obtain ⟨batches, labels, hs⟩ := hcaptures hsame
    exact captures_step hs horder' hle hstep ht

end Segment

/-- A step that starts a recording opens its devices with empty queues. -/
theorem captures_start {timeoutMs : ℤ} {s u : State} {a : Label} (horder : s.InOrder)
    (h : step timeoutMs s a = some u) (hstart : s.starts.length < u.starts.length) :
    Captures u [] u [] [] := by
  have hnone : ¬ s.starts.length < s.starts.length := Nat.lt_irrefl _
  cases a with
  | tick ns =>
    obtain rfl := Option.some.inj h
    exact absurd hstart hnone
  | arrive fd ev =>
    obtain ⟨f, -, h⟩ := Option.bind_eq_some_iff.mp h
    obtain ⟨listener, -, rfl⟩ := Option.map_eq_some_iff.mp h
    exact absurd hstart hnone
  | request session status request =>
    obtain rfl := Option.some.inj h
    exact absurd hstart hnone
  | handler i isCancelled answers =>
    have haccounted : s.listener.Accounted := horder
    obtain ⟨handler, -, h⟩ := Option.bind_eq_some_iff.mp h
    cases (handlerMove_of_step h).2 with
    | started kinds pc hacts hstarted =>
      exact ⟨fun _ => rfl, LocalInputListener.exact_start haccounted hstarted, [],
        (List.append_nil _).symm, rfl⟩
    | _ => exact absurd hstart hnone
  | watchdog =>
    obtain rfl := Option.some.inj h
    unfold watchdogStep at hstart
    split at hstart
    · split at hstart <;> exact absurd hstart hnone
    all_goals exact absurd hstart hnone

/-- The events of a recording, read by read: what the calls of all sessions returned of it is, for
each of its devices, what is gone from the queue of the device. -/
theorem recording_delivered {timeoutMs start : ℤ} {before after : List Label} {a : Label}
    {s u t : State} (hs : Machine.run (step timeoutMs) (initial start) before = some s)
    (hu : step timeoutMs s a = some u) (hstart : s.starts.length < u.starts.length)
    (ht : Machine.run (step timeoutMs) u after = some t) (hsame : SameRecording u t) :
    ∃ new batches, t.delivered = u.delivered ++ new ∧
      new.map Delivery.inputEvent = batches.flatMap Batch.inputEvents ∧
      (∀ b ∈ batches, b.device ∈ t.listener.devices) ∧
      ∀ d ∈ t.listener.devices, ∃ removed queued,
        arrivedIn d.fd after = removed ++ queued ∧
        (t.listener.files d.fd).map LocalInputListener.OpenFile.queue = some queued ∧
        LocalInputListener.eventsOf d batches =
          (removed.filter fun ev => ev.type != evSyn).map
            (LocalInputListener.toApiInputEvent d.kind) := by
  have horder : s.InOrder := Machine.invariant_run (step timeoutMs)
    (fun _ _ _ => inOrder_step) (inOrder_initial start) hs
  obtain ⟨haccounted, -, hcaptures⟩ :=
    captures_run (captures_start horder hu hstart) (inOrder_step horder hu) ht
  obtain ⟨batches, labels, harrivals, hexact, new, hnew, hevents⟩ := hcaptures hsame
  have hdevices : t.listener.devices = u.listener.devices := hexact.devices_eq
  have hsources : ∀ b ∈ batches, b.device ∈ t.listener.devices := by
    intro b hb
    rw [hdevices]
    exact hexact.sources b (List.mem_append_left _ hb)
  refine ⟨new, batches, hnew, hevents, hsources, fun d hd => ?_⟩
  obtain ⟨f, hf⟩ := Option.isSome_iff_exists.mp (hexact.tracked d (hdevices ▸ hd))
  have hread := hexact.read d.fd f hf
  rw [Session.batches_of_idle _ rfl] at hread
  refine ⟨f.arrived.take f.consumed, f.queue, ?_, ?_, ?_⟩
  · rw [← harrivals d.fd, ← hexact.arrived d.fd f hf, LocalInputListener.OpenFile.queue,
      List.take_append_drop]
  · exact congrArg (Option.map _) hf
  · rw [← hread]
    exact LocalInputListener.eventsOf_eq (LocalInputListener.nodup_of_replay haccounted.balance) hd
      hsources

end GrpcInputListenService

end Evrp
