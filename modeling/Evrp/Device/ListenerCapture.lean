import Evrp.Device.ListenerResources

/-!
# What a listening session returns

A session is the life of the listener between a start and the cancel that ends
it. Records arrive in the kernel queues at any moment, also between the reads of
one `readInputEvents` call, so that call is taken apart into its reads. What
was read from a descriptor is always the part of its arrivals that is gone from
the queue: nothing is lost between the poll that reports a device and the read
that follows, and nothing is read twice.
-/

namespace Evrp

namespace LocalInputListener

/-- The events of a batch that the call returns. -/
def Batch.inputEvents (b : Batch) : List InputEvent :=
  (b.events.filter fun ev => ev.type != evSyn).map (toApiInputEvent b.device.kind)

/-- The listener, the devices a call in progress has still to read with what it has read so far,
and the batches of the calls that have returned. -/
structure Session where
  listener : State
  reading : Option (List TrackedDevice × List Batch)
  returned : List Batch

/-- A session without history. -/
def Session.start (s : State) : Session := ⟨s, none, []⟩

/-- An arrival, a wait, or a part of a `readInputEvents` call. -/
inductive Label where
  | arrive (fd : ℕ) (ev : Event)
  | wait (answers : Answers) (timeoutMs : ℤ)
  | beginRead
  | readDevice (answers : Answers)
  | endRead

/-- A call returns at once if the listener is not listening or no device was readable. -/
def State.skipsRead (s : State) : Bool :=
  s.disposed || (!s.listeningActive || s.devices.isEmpty) || s.pollReadyIndices.isEmpty

/-- The devices a call reads. -/
def State.readable (s : State) : List TrackedDevice :=
  (s.pollReadyIndices.filter (· < s.polled)).filterMap (s.devices[·]?)

def Session.step (s : Session) : Label → Option Session
  | .arrive fd ev => (arrive fd ev s.listener).map fun l => { s with listener := l }
  | .wait answers timeoutMs =>
    match s.reading with
    | some _ => none
    | none => some { s with listener := (waitForInputEvent answers timeoutMs s.listener).1 }
  | .beginRead =>
    match s.reading with
    | some _ => none
    | none =>
      if s.listener.skipsRead then some s
      else some { s with reading := some (s.listener.readable, []) }
  | .readDevice answers =>
    match s.reading with
    | some (d :: ds, out) =>
      let read := readEvents answers s.listener.files d
      some { s with
        listener := { s.listener with files := read.1 }
        reading := some (ds, out ++ [read.2]) }
    | _ => none
  | .endRead =>
    match s.reading with
    | some ([], out) => some {
        listener := { s.listener with pollReadyIndices := [] }
        reading := none
        returned := s.returned ++ out }
    | _ => none

/-- The parts of a call that is not interrupted by arrivals. -/
def readLabels (answers : Answers) (s : State) : List Label :=
  if s.skipsRead then [.beginRead]
  else .beginRead :: (s.readable.map fun _ => .readDevice answers) ++ [.endRead]

theorem run_readDevices (answers : Answers) (s : State) (returned : List Batch)
    (devices : List TrackedDevice) (files : ℕ → Option OpenFile) (out : List Batch) :
    Machine.run Session.step ⟨{ s with files := files }, some (devices, out), returned⟩
      (devices.map fun _ => .readDevice answers) =
    some ⟨{ s with files := (readDevices answers files devices).1 },
      some ([], out ++ (readDevices answers files devices).2), returned⟩ := by
  induction devices generalizing files out with
  | nil => rw [readDevices, List.append_nil]; rfl
  | cons d ds ih =>
    rw [List.map_cons, Machine.run_cons, Session.step, Option.bind_some, ih, readDevices,
      List.append_assoc]
    rfl

theorem readInputEvents_eq (answers : Answers) (s : State) :
    readInputEvents answers s =
      if s.skipsRead then (s, [])
      else ({ s with
        files := (readDevices answers s.files s.readable).1, pollReadyIndices := [] },
        (readDevices answers s.files s.readable).2) := by
  unfold readInputEvents State.skipsRead
  cases s.disposed with
  | true => rfl
  | false =>
    cases !s.listeningActive || s.devices.isEmpty with
    | true => rfl
    | false => cases s.pollReadyIndices.isEmpty <;> rfl

/-- The parts together are the call. -/
theorem run_readLabels (answers : Answers) (s : State) (returned : List Batch) :
    Machine.run Session.step ⟨s, none, returned⟩ (readLabels answers s) =
      some ⟨(readInputEvents answers s).1, none, returned ++ (readInputEvents answers s).2⟩ := by
  rw [readInputEvents_eq, readLabels]
  cases hskips : s.skipsRead with
  | true =>
    simp only [if_true, Machine.run_cons, Machine.run_nil, Session.step, hskips, Option.bind_some,
      List.append_nil]
  | false =>
    have hread := run_readDevices answers s returned s.readable s.files []
    simp only [Bool.false_eq_true, if_false, List.cons_append, Machine.run_cons, Session.step,
      hskips, Option.bind_some]
    rw [Machine.run_append, hread, Option.bind_some]
    rfl

/-- The arrival of a step in a descriptor. -/
def Label.arrival (fd : ℕ) : Label → Option Event
  | .arrive fd' ev => if fd' = fd then some ev else none
  | _ => none

/-- What has arrived in a descriptor, in order. -/
def arrivals (fd : ℕ) (labels : List Label) : List Event := labels.filterMap (Label.arrival fd)

/-- The batches of a call in progress, which it will return. -/
def Session.collecting (s : Session) : List Batch := (s.reading.map Prod.snd).getD []

/-- All batches read so far. -/
def Session.batches (s : Session) : List Batch := s.returned ++ s.collecting

/-- The devices a call in progress has still to read. -/
def Session.pending (s : Session) : List TrackedDevice := (s.reading.map Prod.fst).getD []

/-- The records read from a descriptor. -/
def recordsFrom (fd : ℕ) (batches : List Batch) : List Event :=
  (batches.filter fun b => b.device.fd = fd).flatMap Batch.events

/-- Nothing is lost or read twice: every descriptor holds all that has arrived in it, and the
records read are those before its read position. -/
structure Session.Exact (devices : List TrackedDevice) (labels : List Label) (s : Session) :
    Prop where
  devices_eq : s.listener.devices = devices
  tracked : ∀ d ∈ devices, (s.listener.files d.fd).isSome = true
  arrived : ∀ fd f, s.listener.files fd = some f → f.arrived = arrivals fd labels
  position : ∀ fd f, s.listener.files fd = some f → f.consumed ≤ f.arrived.length
  read : ∀ fd f, s.listener.files fd = some f →
    recordsFrom fd s.batches = f.arrived.take f.consumed
  sources : ∀ b ∈ s.batches, b.device ∈ devices
  pending : ∀ d ∈ s.pending, d ∈ devices

/-- Polling changes nothing but the remembered positions. -/
theorem waitForInputEvent_frame (answers : Answers) (timeoutMs : ℤ) (s : State) :
    ∃ is, (waitForInputEvent answers timeoutMs s).1 = { s with pollReadyIndices := is } := by
  unfold waitForInputEvent
  split
  · exact ⟨_, rfl⟩
  · split
    · exact ⟨_, rfl⟩
    · split
      · exact ⟨_, rfl⟩
      · simp only
        split
        · exact ⟨_, rfl⟩
        · exact ⟨_, rfl⟩

theorem mem_of_mem_readable {s : State} {d : TrackedDevice} (h : d ∈ s.readable) :
    d ∈ s.devices := by
  obtain ⟨i, -, hi⟩ := List.mem_filterMap.mp h
  exact List.mem_of_getElem? hi

theorem arrivals_concat (fd : ℕ) (labels : List Label) (a : Label) :
    arrivals fd (labels ++ [a]) = arrivals fd labels ++ (a.arrival fd).toList := by
  rw [arrivals, List.filterMap_append]
  cases ha : a.arrival fd <;> simp [arrivals, ha]

/-- The records a read removes stand behind those read before. -/
theorem take_consumed {l events : List Event} {consumed : ℕ} (h : events <+: l.drop consumed) :
    l.take (consumed + events.length) = l.take consumed ++ events := by
  rw [List.take_add, ← List.prefix_iff_eq_take.mp h]

theorem Session.batches_of_reading (s : Session) {ds : List TrackedDevice} {out : List Batch}
    (h : s.reading = some (ds, out)) : s.batches = s.returned ++ out := by
  rw [Session.batches, Session.collecting, h]
  rfl

theorem Session.batches_of_idle (s : Session) (h : s.reading = none) :
    s.batches = s.returned := by
  rw [Session.batches, Session.collecting, h]
  exact List.append_nil _

theorem batches_reading (l : State) (ds : List TrackedDevice) (out returned : List Batch)
    (b : Batch) :
    (Session.mk l (some (ds, out ++ [b])) returned).batches = returned ++ out ++ [b] :=
  (List.append_assoc ..).symm

theorem recordsFrom_concat (fd : ℕ) (batches : List Batch) (b : Batch) :
    recordsFrom fd (batches ++ [b]) =
      recordsFrom fd batches ++ if b.device.fd = fd then b.events else [] := by
  rw [recordsFrom, List.filter_append, List.flatMap_append]
  by_cases hfd : b.device.fd = fd <;> simp [recordsFrom, hfd]

theorem isSome_update {files : ℕ → Option OpenFile} {fd fd' : ℕ} {f : OpenFile}
    (h : (files fd').isSome = true) : (Function.update files fd (some f) fd').isSome = true := by
  by_cases heq : fd' = fd
  · subst heq
    rw [Function.update_self]
    rfl
  · rwa [Function.update_of_ne heq]

namespace Session.Exact

variable {devices : List TrackedDevice} {labels : List Label} {s t : Session} {a : Label}

/-- A step without arrival that keeps the descriptors and the batches. -/
theorem frame (h : s.Exact devices labels) (hdevices : t.listener.devices = s.listener.devices)
    (hfiles : t.listener.files = s.listener.files) (hbatches : t.batches = s.batches)
    (hpending : ∀ d ∈ t.pending, d ∈ devices) (harrival : ∀ fd, a.arrival fd = none) :
    t.Exact devices (labels ++ [a]) where
  devices_eq := hdevices.trans h.devices_eq
  tracked := hfiles ▸ h.tracked
  arrived := by
    intro fd f hf
    rw [hfiles] at hf
    rw [arrivals_concat, harrival, Option.toList_none, List.append_nil, h.arrived fd f hf]
  position := hfiles ▸ h.position
  read := by
    rw [hfiles, hbatches]
    exact h.read
  sources := by
    rw [hbatches]
    exact h.sources
  pending := hpending

/-- A record joins the end of its queue. -/
theorem arrive (h : s.Exact devices labels) {fd : ℕ} {ev : Event}
    (hstep : s.step (.arrive fd ev) = some t) :
    t.Exact devices (labels ++ [.arrive fd ev]) := by
  obtain ⟨l, hl, rfl⟩ := Option.map_eq_some_iff.mp hstep
  obtain ⟨f, hf, rfl⟩ := Option.map_eq_some_iff.mp hl
  have hother {fd' : ℕ} (hne : fd' ≠ fd) :
      arrivals fd' (labels ++ [.arrive fd ev]) = arrivals fd' labels := by
    rw [arrivals_concat, Label.arrival, if_neg (Ne.symm hne), Option.toList_none, List.append_nil]
  have hself : arrivals fd (labels ++ [.arrive fd ev]) = arrivals fd labels ++ [ev] := by
    rw [arrivals_concat, Label.arrival, if_pos rfl, Option.toList_some]
  exact {
    devices_eq := h.devices_eq
    tracked := fun d hd => isSome_update (h.tracked d hd)
    arrived := by
      intro fd' g hg
      rcases update_eq_some hg with ⟨rfl, rfl⟩ | ⟨hne, hg⟩
      · rw [hself, h.arrived fd' f hf]
      · rw [hother hne, h.arrived fd' g hg]
    position := by
      intro fd' g hg
      rcases update_eq_some hg with ⟨rfl, rfl⟩ | ⟨hne, hg⟩
      · have hle := h.position fd' f hf
        rw [List.length_append]
        exact Nat.le_add_right_of_le hle
      · exact h.position fd' g hg
    read := by
      intro fd' g hg
      rcases update_eq_some hg with ⟨rfl, rfl⟩ | ⟨hne, hg⟩
      · rw [List.take_append_of_le_length (h.position fd' f hf)]
        exact h.read fd' f hf
      · exact h.read fd' g hg
    sources := h.sources
    pending := h.pending }

/-- A read moves the position of its descriptor by the records it returns. -/
theorem readDevice (h : s.Exact devices labels) {answers : Answers}
    (hstep : s.step (.readDevice answers) = some t) :
    t.Exact devices (labels ++ [.readDevice answers]) := by
  rw [Session.step] at hstep
  split at hstep
  · rename_i d ds out hreading
    have hmem : d ∈ devices := by
      refine h.pending d ?_
      rw [Session.pending, hreading]
      exact List.mem_cons_self
    obtain ⟨f, hf⟩ := Option.isSome_iff_exists.mp (h.tracked d hmem)
    have hread : readEvents answers s.listener.files d =
        (Function.update s.listener.files d.fd (some { f with consumed := f.consumed +
          ((f.queue.take 64).take (answers.amount d.fd)).length }),
          ⟨d, f.recording, (f.queue.take 64).take (answers.amount d.fd)⟩) := by
      rw [readEvents, hf]
    have hunread : (f.queue.take 64).take (answers.amount d.fd) <+: f.arrived.drop f.consumed :=
      (List.take_prefix _ _).trans (List.take_prefix _ _)
    generalize (f.queue.take 64).take (answers.amount d.fd) = events at hread hunread
    simp only [hread, Option.some.injEq] at hstep
    subst hstep
    have hnone (fd : ℕ) : arrivals fd (labels ++ [.readDevice answers]) = arrivals fd labels := by
      rw [arrivals_concat]
      exact List.append_nil _
    have hbatches := s.batches_of_reading hreading
    exact {
      devices_eq := h.devices_eq
      tracked := fun d' hd' => isSome_update (h.tracked d' hd')
      arrived := by
        intro fd g hg
        rw [hnone]
        rcases update_eq_some hg with ⟨rfl, rfl⟩ | ⟨-, hg⟩
        · exact h.arrived d.fd f hf
        · exact h.arrived fd g hg
      position := by
        intro fd g hg
        rcases update_eq_some hg with ⟨rfl, rfl⟩ | ⟨-, hg⟩
        · have hle := h.position d.fd f hf
          have hlength := hunread.length_le
          rw [List.length_drop] at hlength
          exact (by omega : f.consumed + events.length ≤ f.arrived.length)
        · exact h.position fd g hg
      read := by
        intro fd g hg
        rw [batches_reading, ← hbatches, recordsFrom_concat]
        rcases update_eq_some hg with ⟨rfl, rfl⟩ | ⟨hne, hg⟩
        · rw [if_pos rfl, h.read d.fd f hf, take_consumed hunread]
        · rw [if_neg (Ne.symm hne), List.append_nil, h.read fd g hg]
      sources := by
        intro b hb
        rw [batches_reading, ← hbatches] at hb
        rcases List.mem_append.mp hb with hb | hb
        · exact h.sources b hb
        · rw [List.mem_singleton.mp hb]
          exact hmem
      pending := by
        intro d' hd'
        refine h.pending d' ?_
        rw [Session.pending, hreading]
        exact List.mem_cons_of_mem d hd' }
  · cases hstep

theorem step (h : s.Exact devices labels) (hstep : s.step a = some t) :
    t.Exact devices (labels ++ [a]) := by
  cases a with
  | arrive fd ev => exact h.arrive hstep
  | readDevice answers => exact h.readDevice hstep
  | wait answers timeoutMs =>
    rw [Session.step] at hstep
    split at hstep
    · cases hstep
    · obtain ⟨is, his⟩ := waitForInputEvent_frame answers timeoutMs s.listener
      obtain rfl := Option.some.inj hstep
      refine h.frame ?_ ?_ rfl h.pending fun _ => rfl
      · rw [his]
      · rw [his]
  | beginRead =>
    rw [Session.step] at hstep
    split at hstep
    · cases hstep
    · rename_i hidle
      split at hstep
      · obtain rfl := Option.some.inj hstep
        exact h.frame rfl rfl rfl h.pending fun _ => rfl
      · obtain rfl := Option.some.inj hstep
        refine h.frame rfl rfl ?_ (fun d hd => ?_) fun _ => rfl
        · rw [s.batches_of_idle hidle]
          exact List.append_nil _
        · exact h.devices_eq ▸ mem_of_mem_readable hd
  | endRead =>
    rw [Session.step] at hstep
    split at hstep
    · rename_i out hdone
      obtain rfl := Option.some.inj hstep
      refine h.frame rfl rfl ?_ (fun d hd => absurd hd List.not_mem_nil) fun _ => rfl
      rw [s.batches_of_reading hdone]
      exact List.append_nil _
    · cases hstep

end Session.Exact

theorem exact_run {devices : List TrackedDevice} {s t : Session} {labels : List Label}
    (hs : s.Exact devices []) (h : Machine.run Session.step s labels = some t) :
    t.Exact devices labels := by
  induction labels using List.reverseRecOn generalizing t with
  | nil => exact Option.some.inj h ▸ hs
  | append_singleton labels a ih =>
    obtain ⟨u, hu, hstep⟩ := (Machine.run_concat_some _).mp h
    exact (ih hu).step hstep

/-- Batches of one device return its records without the synchronisation events. -/
theorem flatMap_inputEvents {k : DeviceKind} {batches : List Batch}
    (h : ∀ b ∈ batches, b.device.kind = k) :
    batches.flatMap Batch.inputEvents =
      ((batches.flatMap Batch.events).filter fun ev => ev.type != evSyn).map
        (toApiInputEvent k) := by
  induction batches with
  | nil => rfl
  | cons b batches ih =>
    have hb : b.inputEvents =
        (b.events.filter fun ev => ev.type != evSyn).map (toApiInputEvent k) := by
      rw [Batch.inputEvents, h b List.mem_cons_self]
    rw [List.flatMap_cons, List.flatMap_cons, List.filter_append, List.map_append, hb,
      ih fun b' hb' => h b' (List.mem_cons_of_mem b hb')]

/-- The events that batches return for one device. -/
def eventsOf (d : TrackedDevice) (batches : List Batch) : List InputEvent :=
  (batches.filter fun b => b.device = d).flatMap Batch.inputEvents

theorem eventsOf_append (d : TrackedDevice) (xs ys : List Batch) :
    eventsOf d (xs ++ ys) = eventsOf d xs ++ eventsOf d ys := by
  rw [eventsOf, List.filter_append, List.flatMap_append]
  rfl

/-- The batches of a device are those of its descriptor. -/
theorem eventsOf_eq {devices : List TrackedDevice} (hfds : (devices.map TrackedDevice.fd).Nodup)
    {d : TrackedDevice} (hd : d ∈ devices) {batches : List Batch}
    (h : ∀ b ∈ batches, b.device ∈ devices) :
    eventsOf d batches = ((recordsFrom d.fd batches).filter fun ev => ev.type != evSyn).map
      (toApiInputEvent d.kind) := by
  have hsame : (batches.filter fun b => b.device = d) =
      batches.filter fun b => b.device.fd = d.fd := by
    refine List.filter_congr fun b hb => ?_
    refine decide_eq_decide.mpr ⟨fun heq => heq ▸ rfl, fun heq => ?_⟩
    exact List.inj_on_of_nodup_map hfds (h b hb) hd heq
  rw [eventsOf, hsame, recordsFrom]
  refine flatMap_inputEvents fun b hb => ?_
  rw [← hsame] at hb
  rw [of_decide_eq_true (List.mem_filter.mp hb).2]

/-- A session begins with empty queues. -/
theorem exact_start {s : State} (h : s.Accounted) {answers : Answers} {recording : ℕ}
    {kinds : List DeviceKind} (hstart : (startListening answers recording kinds s).2 = true) :
    (Session.start (startListening answers recording kinds s).1).Exact
      (startListening answers recording kinds s).1.devices [] := by
  rcases startListening_cases answers recording kinds s with
    heq | ⟨-, -, heq⟩ | ⟨-, hidle, -, heq⟩
  · rw [heq] at hstart
    cases hstart
  · rw [heq] at hstart
    cases hstart
  · have hopening := h.opening hidle answers recording kinds
    rw [heq]
    exact {
      devices_eq := rfl
      tracked := fun d hd => (hopening.files d.fd).mpr (List.mem_map_of_mem hd)
      arrived := fun fd f hf => (hopening.fresh fd f hf).1
      position := by
        intro fd f hf
        rw [(hopening.fresh fd f hf).2]
        exact Nat.zero_le _
      read := by
        intro fd f hf
        rw [(hopening.fresh fd f hf).1, List.take_nil]
        rfl
      sources := fun b hb => absurd hb List.not_mem_nil
      pending := fun d hd => absurd hd List.not_mem_nil }

/-- What an exact session has returned of each of its devices. -/
theorem Session.Exact.captured {devices : List TrackedDevice} {labels : List Label} {t : Session}
    (h : t.Exact devices labels) (hfds : (devices.map TrackedDevice.fd).Nodup) :
    t.listener.devices = devices ∧ ∀ d ∈ t.listener.devices, ∃ removed queued,
      arrivals d.fd labels = removed ++ queued ∧
      (t.listener.files d.fd).map OpenFile.queue = some queued ∧
      eventsOf d t.returned ++ eventsOf d t.collecting =
        (removed.filter fun ev => ev.type != evSyn).map (toApiInputEvent d.kind) := by
  refine ⟨h.devices_eq, fun d hd => ?_⟩
  rw [h.devices_eq] at hd
  obtain ⟨f, hf⟩ := Option.isSome_iff_exists.mp (h.tracked d hd)
  refine ⟨f.arrived.take f.consumed, f.queue, ?_, ?_, ?_⟩
  · rw [← h.arrived d.fd f hf, OpenFile.queue, List.take_append_drop]
  · rw [hf, Option.map_some]
  · rw [← eventsOf_append, ← h.read d.fd f hf]
    exact eventsOf_eq hfds hd h.sources

/-- In every session, whatever came before it and however arrivals, waits and reads interleave,
the events returned for a device, with those a call in progress will return, are the records
gone from its queue without the synchronisation events; the others are still in the queue. -/
theorem capture_exact {calls : List Call} {answers : Answers} {recording : ℕ}
    {kinds : List DeviceKind} {labels : List Label} {t : Session}
    (hstart : (startListening answers recording kinds (after calls)).2 = true)
    (hrun : Machine.run Session.step
      (.start (startListening answers recording kinds (after calls)).1) labels = some t) :
    t.listener.devices = (startListening answers recording kinds (after calls)).1.devices ∧
      ∀ d ∈ t.listener.devices, ∃ removed queued,
        arrivals d.fd labels = removed ++ queued ∧
        (t.listener.files d.fd).map OpenFile.queue = some queued ∧
        eventsOf d t.returned ++ eventsOf d t.collecting =
          (removed.filter fun ev => ev.type != evSyn).map (toApiInputEvent d.kind) := by
  have haccounted := accounted_after calls
  have hstarted := haccounted.start answers recording kinds
  exact (exact_run (exact_start haccounted hstart) hrun).captured
    (nodup_of_replay hstarted.balance)

/-- One keyboard that is always readable. -/
def oneKeyboard : Answers :=
  ⟨fun k => if k = .keyboard then ["/dev/input/event0"] else [], fun _ => some 3, fun _ => true,
    fun _ => 64⟩

/-- A key press and its report are read while the release arrives behind them. -/
def pressAndRelease : List Label :=
  [.arrive 3 ⟨1, 0, evKey, keyA, 1⟩, .arrive 3 ⟨1, 0, evSyn, synReport, 0⟩, .wait oneKeyboard 500,
    .beginRead, .readDevice oneKeyboard, .arrive 3 ⟨2, 0, evKey, keyA, 0⟩, .endRead]

theorem capture_exact_pressAndRelease :
    ∃ t, Machine.run Session.step
        (.start (startListening oneKeyboard 0 [.keyboard] (after [])).1)
          pressAndRelease = some t ∧
      ∃ removed queued, arrivals 3 pressAndRelease = removed ++ queued ∧
        (t.listener.files 3).map OpenFile.queue = some queued ∧
        eventsOf ⟨3, .keyboard, "/dev/input/event0"⟩ t.returned ++
            eventsOf ⟨3, .keyboard, "/dev/input/event0"⟩ t.collecting =
          (removed.filter fun ev => ev.type != evSyn).map (toApiInputEvent .keyboard) := by
  have hsome : (Machine.run Session.step (.start (startListening oneKeyboard 0 [.keyboard]
      (after [])).1) pressAndRelease).isSome = true := by decide
  obtain ⟨t, ht⟩ := Option.isSome_iff_exists.mp hsome
  obtain ⟨hdevices, hcapture⟩ := capture_exact (by decide) ht
  have hmem : ⟨3, .keyboard, "/dev/input/event0"⟩ ∈ t.listener.devices := by
    rw [hdevices]
    decide
  exact ⟨t, ht, hcapture _ hmem⟩

/-! ## Whole calls -/

/-- An arrival, a wait or a whole `readInputEvents` call of a session. -/
inductive SessionCall where
  | arrive (fd : ℕ) (ev : Event)
  | wait (answers : Answers) (timeoutMs : ℤ)
  | read (answers : Answers)

/-- The listener and the batches it has returned. -/
def SessionCall.step (h : State × List Batch) : SessionCall → Option (State × List Batch)
  | .arrive fd ev => (LocalInputListener.arrive fd ev h.1).map fun l => (l, h.2)
  | .wait answers timeoutMs => some ((waitForInputEvent answers timeoutMs h.1).1, h.2)
  | .read answers =>
    some ((readInputEvents answers h.1).1, h.2 ++ (readInputEvents answers h.1).2)

def SessionCall.arrival (fd : ℕ) : SessionCall → Option Event
  | .arrive fd' ev => if fd' = fd then some ev else none
  | _ => none

/-- A read brings no arrivals. -/
theorem arrivals_readLabels (fd : ℕ) (labels : List Label) (answers : Answers) (s : State) :
    arrivals fd (labels ++ readLabels answers s) = arrivals fd labels := by
  have hnone : (readLabels answers s).filterMap (Label.arrival fd) = [] := by
    rw [List.filterMap_eq_nil_iff]
    intro a ha
    unfold readLabels at ha
    split at ha
    · obtain rfl := List.mem_singleton.mp ha
      rfl
    · rcases List.mem_append.mp ha with ha | ha
      · rcases List.mem_cons.mp ha with rfl | ha
        · rfl
        · obtain ⟨-, -, rfl⟩ := List.mem_map.mp ha
          rfl
      · obtain rfl := List.mem_singleton.mp ha
        rfl
  rw [arrivals, List.filterMap_append, hnone, List.append_nil]
  rfl

/-- Whole calls are runs of their parts, with the same arrivals. -/
theorem exists_session_run {s l : State} {returned : List Batch} {calls : List SessionCall}
    (h : Machine.run SessionCall.step (s, []) calls = some (l, returned)) :
    ∃ labels, Machine.run Session.step (.start s) labels = some ⟨l, none, returned⟩ ∧
      ∀ fd, arrivals fd labels = calls.filterMap (SessionCall.arrival fd) := by
  induction calls using List.reverseRecOn generalizing l returned with
  | nil =>
    obtain ⟨rfl, rfl⟩ := Prod.mk.inj (Option.some.inj h)
    exact ⟨[], rfl, fun fd => rfl⟩
  | append_singleton calls c ih =>
    obtain ⟨⟨before, earlier⟩, hbefore, hstep⟩ := (Machine.run_concat_some _).mp h
    obtain ⟨labels, hrun, harrivals⟩ := ih hbefore
    have hextend {more : List Label} (hmore : Machine.run Session.step ⟨before, none, earlier⟩
        more = some ⟨l, none, returned⟩) :
        Machine.run Session.step (.start s) (labels ++ more) = some ⟨l, none, returned⟩ :=
      (Machine.run_append_some _).mpr ⟨_, hrun, hmore⟩
    cases c with
    | arrive fd ev =>
      obtain ⟨arrived, harrived, heq⟩ := Option.map_eq_some_iff.mp hstep
      obtain ⟨rfl, rfl⟩ := Prod.mk.inj heq
      refine ⟨labels ++ [.arrive fd ev], hextend ?_, fun fd' => ?_⟩
      · rw [Machine.run_cons, Session.step, harrived]
        rfl
      · rw [arrivals_concat, harrivals, List.filterMap_append]
        by_cases hfd : fd = fd' <;> simp [Label.arrival, SessionCall.arrival, hfd]
    | wait answers timeoutMs =>
      obtain ⟨rfl, rfl⟩ := Prod.mk.inj (Option.some.inj hstep)
      refine ⟨labels ++ [.wait answers timeoutMs], hextend rfl, fun fd => ?_⟩
      rw [arrivals_concat, harrivals, List.filterMap_append]
      rfl
    | read answers =>
      obtain ⟨rfl, rfl⟩ := Prod.mk.inj (Option.some.inj hstep)
      refine ⟨labels ++ readLabels answers before, hextend (run_readLabels answers before earlier),
        fun fd => ?_⟩
      rw [arrivals_readLabels, harrivals, List.filterMap_append]
      exact (List.append_nil _).symm

/-- What whole calls have returned for a device is what is gone from its queue. -/
theorem capture_calls {calls : List Call} {answers : Answers} {recording : ℕ}
    {kinds : List DeviceKind} {sessionCalls : List SessionCall} {l : State} {returned : List Batch}
    (hstart : (startListening answers recording kinds (after calls)).2 = true)
    (hrun : Machine.run SessionCall.step
      ((startListening answers recording kinds (after calls)).1, []) sessionCalls =
        some (l, returned)) :
    l.devices = (startListening answers recording kinds (after calls)).1.devices ∧
      ∀ d ∈ l.devices, ∃ removed queued,
        sessionCalls.filterMap (SessionCall.arrival d.fd) = removed ++ queued ∧
        (l.files d.fd).map OpenFile.queue = some queued ∧
        eventsOf d returned =
          (removed.filter fun ev => ev.type != evSyn).map (toApiInputEvent d.kind) := by
  have haccounted := accounted_after calls
  have hstarted := haccounted.start answers recording kinds
  obtain ⟨labels, hparts, harrivals⟩ := exists_session_run hrun
  obtain ⟨hdevices, hcaptured⟩ := (exact_run (exact_start haccounted hstart) hparts).captured
    (nodup_of_replay hstarted.balance)
  refine ⟨hdevices, fun d hd => ?_⟩
  obtain ⟨removed, queued, hsplit, hqueued, hevents⟩ := hcaptured d hd
  exact ⟨removed, queued, (harrivals d.fd).symm.trans hsplit, hqueued,
    (List.append_nil _).symm.trans hevents⟩

end LocalInputListener

end Evrp
