import Evrp.Device.RemoteInputListener
import Evrp.Server.RecordReplay

/-!
# From the kernel to the recording file

The recorder polls a remote listener, the listener calls the device, and the
device reads the queues of its nodes. What comes out of the file is compared
with what was in the queues: every stage has its own account, and they meet in
the events that the listener hands to the recorder.
-/

namespace Evrp

namespace RemoteInputListener

open LocalInputListener (Batch)

/-- Only kernel records arrive in a run. -/
theorem kernelRecord_of_mem_arrivedIn {me : ℕ} {timeoutMs : ℤ} {s t : State}
    {labels : List Label} (h : Machine.run (step me timeoutMs) s labels = some t) {fd : ℕ}
    {ev : Event} (hev : ev ∈ arrivedIn fd labels) : KernelRecord ev := by
  induction labels generalizing s with
  | nil => exact absurd hev List.not_mem_nil
  | cons a labels ih =>
    obtain ⟨u, hu, hrest⟩ := Option.bind_eq_some_iff.mp h
    obtain ⟨b, hb, harrival⟩ := List.mem_filterMap.mp hev
    rcases List.mem_cons.mp hb with rfl | hb
    · cases b with
      | device label =>
        cases label with
        | arrive fd' ev' =>
          have hallowed : allowed me (.arrive fd' ev') = true := by
            by_contra hnot
            rw [step, if_neg hnot] at hu
            cases hu
          have heq : (if fd' = fd then some ev' else none) = some ev := harrival
          split at heq
          · exact Option.some.inj heq ▸ of_decide_eq_true hallowed
          · cases heq
        | _ => cases harrival
      | _ => cases harrival
    · exact ih hrest (List.mem_filterMap.mpr ⟨b, hb, harrival⟩)

/-- The time of a record that arrives lies between the epoch and the end of the 64-bit
timeline. -/
def Label.timed : Label → Bool
  | .device (.arrive _ ev) =>
    0 ≤ ev.sec * 1000000 + ev.usec && ev.sec * 1000000 + ev.usec < 2 ^ 63
  | _ => true

theorem timed_of_mem_arrivedIn {labels : List Label} (h : ∀ b ∈ labels, b.timed = true) {fd : ℕ}
    {ev : Event} (hev : ev ∈ arrivedIn fd labels) :
    0 ≤ ev.sec * 1000000 + ev.usec ∧ ev.sec * 1000000 + ev.usec < 2 ^ 63 := by
  obtain ⟨b, hb, harrival⟩ := List.mem_filterMap.mp hev
  have htimed := h b hb
  cases b with
  | device label =>
    cases label with
    | arrive fd' ev' =>
      have heq : (if fd' = fd then some ev' else none) = some ev := harrival
      split at heq
      · obtain rfl := Option.some.inj heq
        simpa [Label.timed] using htimed
      · cases heq
    | _ => cases harrival
  | _ => cases harrival

section Recorded

variable {me : ℕ} {timeoutMs start : ℤ} {before after : List Label} {a : Label} {s u t : State}

/-- What a recording brings can be recorded. -/
theorem Brought.replayable {new : List GrpcInputListenService.Delivery} {batches : List Batch}
    (h : Brought me u t after new batches)
    (ht : Machine.run (step me timeoutMs) u after = some t)
    (hkinds : ∀ d ∈ t.service.listener.devices, d.kind ≠ .unspecified)
    (htimes : ∀ b ∈ after, b.timed = true) :
    ∀ e ∈ batches.flatMap Batch.inputEvents, Record.Replayable e := by
  intro e he
  obtain ⟨b, hb, he⟩ := List.mem_flatMap.mp he
  have hdevice := h.sources b hb
  obtain ⟨removed, queued, hsplit, -, hread⟩ := h.exact b.device hdevice
  have hmem : e ∈ LocalInputListener.eventsOf b.device batches :=
    List.mem_flatMap.mpr ⟨b, List.mem_filter.mpr ⟨hb, by simp⟩, he⟩
  rw [hread] at hmem
  obtain ⟨ev, hev, rfl⟩ := List.mem_map.mp hmem
  have harrived : ev ∈ arrivedIn b.device.fd after := by
    rw [hsplit]
    exact List.mem_append_left _ (List.mem_of_mem_filter hev)
  have hrecord := kernelRecord_of_mem_arrivedIn ht harrived
  obtain ⟨hnonneg, hbounded⟩ := timed_of_mem_arrivedIn htimes harrived
  exact ⟨hkinds b.device hdevice, ⟨hrecord.type, hrecord.code⟩, hrecord.value, hnonneg, hbounded⟩

theorem kinds_of_run {labels : List Label}
    (h : Machine.run (step me timeoutMs) (initial start) labels = some t) :
    ∀ d ∈ t.service.listener.devices, d.kind ≠ .unspecified := by
  obtain ⟨more, hmore, -⟩ := exists_service_run h
  have haccounted : t.service.InOrder := Machine.invariant_run _
    (fun _ _ _ => GrpcInputListenService.inOrder_step)
    (GrpcInputListenService.inOrder_initial start) hmore
  exact LocalInputListener.State.Accounted.kinds haccounted

/-- From the kernel to the file, in every interleaving at the device: if the recorder's polls are
what its listener has handed out of one recording, no reply was lost and no other session reads,
then the file of a successful recorder is composed to what the keyboard filter lets through of the
records gone from the queues of the devices, each device's in order and without the
synchronisation records, on a timeline that starts at the earliest of them. -/
theorem recorded_file_holds_kernel_records (lua : List Char → ℤ × List InputEvent)
    (hs : Machine.run (step me timeoutMs) (initial start) before = some s)
    (hu : step me timeoutMs s a = some u)
    (hstart : s.service.starts.length < u.service.starts.length)
    (ht : Machine.run (step me timeoutMs) u after = some t)
    (hsame : GrpcInputListenService.SameRecording u.service t.service)
    (hnothing : u.client.received ++ u.pending = []) (hidle : t.client.calling = none)
    (hfailed : t.client.failed = false)
    (hforeign : ∀ b ∈ before ++ a :: after, foreignRead b = false)
    (htimes : ∀ b ∈ after, b.timed = true) {mode : KeyboardCtrlCFilterMode} {env : RecordEnv}
    {polls : List (Option (List InputEvent))}
    (hpolls : Record.polledEvents polls = t.client.received)
    (hcode : (Record.run mode env polls).1 = 0)
    (hne : (Record.run mode env polls).2.eventLines ≠ []) :
    ∃ (batches : List Batch) (recorded : List InputEvent),
      (∀ b ∈ batches, b.device ∈ t.service.listener.devices) ∧
      (∀ d ∈ t.service.listener.devices, ∃ removed queued,
        arrivedIn d.fd after = removed ++ queued ∧
        (t.service.listener.files d.fd).map LocalInputListener.OpenFile.queue = some queued ∧
        LocalInputListener.eventsOf d batches =
          (removed.filter fun ev => ev.type != evSyn).map
            (LocalInputListener.toApiInputEvent d.kind)) ∧
      recorded = Record.emitAll mode true .initial (batches.flatMap Batch.inputEvents) ∧
      ∃ first ∈ recorded, (∀ e ∈ recorded, first.timeUs ≤ e.timeUs) ∧
        toEvents lua (Record.run mode env polls).2.file.text =
          (0, recorded.map fun e => setEventTimeUs e (e.timeUs - first.timeUs)) := by
  obtain ⟨new, batches, h⟩ := exists_brought hs hu hstart ht hsame
  have hreceived : t.client.received = batches.flatMap Batch.inputEvents := by
    have hall := h.received_all hs hu ht hfailed hforeign
    rw [hnothing, pending_eq_nil fun i hi => absurd (hidle.symm.trans hi) (by simp)] at hall
    simpa using hall
  have ht' : Machine.run (step me timeoutMs) (initial start) (before ++ a :: after) = some t :=
    (Machine.run_append_some _).mpr ⟨s, hs, Option.bind_eq_some_iff.mpr ⟨u, hu, ht⟩⟩
  have hreplayable := h.replayable ht (kinds_of_run ht') htimes
  have hlines : (Record.run mode env polls).2.eventLines =
      Record.emitAll mode true .initial (batches.flatMap Batch.inputEvents) := by
    obtain ⟨hstate, hok⟩ := Record.run_code_zero hcode
    rw [hstate, Record.session_complete hok, hpolls, hreceived]
  have hes : ∀ e ∈ (Record.run mode env polls).2.eventLines, Record.Replayable e := by
    intro e he
    rw [hlines] at he
    exact hreplayable e (Record.mem_of_mem_recorded (fun x hx => (hreplayable x hx).evdev) he)
  obtain ⟨first, hfirst, hleast, htext⟩ := Record.toEvents_eventLines lua hcode hne hes
  exact ⟨batches, _, h.sources, h.exact, hlines, first, hfirst, hleast, htext⟩

end Recorded

/-- The key that was pressed is handed to the recorder. -/
theorem recorded_file_holds_kernel_records_pressed : ∃ t,
    Machine.run (step 1 0) startedClient (pressedLabels ++ [.finish]) = some t ∧
      ∃ (recorded : List InputEvent) (first : InputEvent),
        (∀ e ∈ recorded, first.timeUs ≤ e.timeUs) ∧
        toEvents (fun _ => (0, [])) (Record.run .endingOnly (Record.reliableEnv fun n => ⟨n, 0⟩)
          [none, some [⟨.keyboard, 0, 0, evKey, keyA, 1⟩]]).2.file.text =
          (0, recorded.map fun e => setEventTimeUs e (e.timeUs - first.timeUs)) := by
  obtain ⟨t, ht, hfailed, hidle, hreceived, hsame⟩ : ∃ t,
      Machine.run (step 1 0) startedClient (pressedLabels ++ [.finish]) = some t ∧
        t.client.failed = false ∧ t.client.calling = none ∧
        t.client.received = [⟨.keyboard, 0, 0, evKey, keyA, 1⟩] ∧
        GrpcInputListenService.SameRecording startedClient.service t.service := by
    refine ⟨_, rfl, ?_⟩
    exact ⟨rfl, rfl, rfl, rfl, rfl⟩
  have hlines : (Record.run .endingOnly (Record.reliableEnv fun n => ⟨n, 0⟩)
      [none, some [⟨.keyboard, 0, 0, evKey, keyA, 1⟩]]).2.eventLines ≠ [] := by
    rw [(Record.run_eventLines_reliableEnv .endingOnly _ _).2]
    decide
  obtain ⟨batches, recorded, -, -, -, first, -, hleast, htext⟩ :=
    @recorded_file_holds_kernel_records 1 0 0
      (.begin (.startListening [.keyboard]) .ok :: steps 0 2) (pressedLabels ++ [.finish])
      (.device (.handler 0 false GrpcInputListenService.keyboardNode)) startingClient
      startedClient t (fun _ => (0, [])) rfl rfl (by decide) ht hsame rfl hidle hfailed
      (by decide) (by decide) .endingOnly (Record.reliableEnv fun n => ⟨n, 0⟩)
      [none, some [⟨.keyboard, 0, 0, evKey, keyA, 1⟩]] hreceived.symm
      (Record.run_code_reliableEnv .endingOnly _ _) hlines
  exact ⟨t, ht, recorded, first, hleast, htext⟩

end RemoteInputListener

end Evrp
