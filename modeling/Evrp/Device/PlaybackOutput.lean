import Evrp.Device.LocalPlayback
import Evrp.Sdk.PlaybackEventCollector
import Mathlib.Algebra.Order.BigOperators.Group.List

/-!
# What playback writes to the devices

The loop of playback as one function of the batch, of what the devices do and of
when a stop becomes visible. A script reaches the devices on two paths: its
operations write to them directly, or they are collected, uploaded and played.
The collector has added the reports of an event already when playback adds them
once more.
-/

namespace Evrp

open Word Emission

namespace LocalPlayback

/-- What the loop of playback carries from event to event. -/
structure Loop where
  writer : InputEventWriter
  prevUs : Option ℤ
  waitedUs : ℤ
  currentEventIndex : ℤ
  progress : ℕ

/-- The loop before the first event. -/
def Loop.start : Loop := ⟨.new, none, 0, -1, 0⟩

/-- The time slept before an event. -/
def waitUs (prevUs : Option ℤ) (e : InputEvent) : ℤ :=
  match prevUs with
  | some prevUs => max 0 (wrap 64 (e.timeUs - prevUs))
  | none => 0

/-- The loop from event number `i` on; `stopRequested i` says what the check before that event
reads. -/
def playEvents (env : Devices) (stopRequested : ℕ → Bool) :
    ℕ → List InputEvent → Loop → StatusCode × Loop
  | _, [], l => (⟨0, ""⟩, l)
  | i, e :: rest, l =>
    if stopRequested i then (⟨0, ""⟩, l)
    else
      let waitedUs := l.waitedUs + waitUs l.prevUs e
      match InputEventWriter.write env e.device (UInt16.ofNat e.type) (UInt16.ofNat e.code)
          e.value l.writer with
      | (true, writer) =>
        playEvents env stopRequested (i + 1) rest
          ⟨writer, some e.timeUs, waitedUs, i, l.progress + 1⟩
      | (false, writer) =>
        (⟨2, "write event failed during playback"⟩,
          { l with writer := writer, prevUs := some e.timeUs, waitedUs := waitedUs })

/-- A playback of the cached events. -/
def playback (env : Devices) (stopRequested : ℕ → Bool) (cached : List InputEvent) :
    StatusCode × Loop :=
  if cached.isEmpty then (⟨1, "no recording uploaded"⟩, .start)
  else playEvents env stopRequested 0 cached .start

end LocalPlayback

/-- Upload the collected events and play them. -/
def PlaybackEventCollector.uploadAndPlay (env : Devices) (stopRequested : ℕ → Bool)
    (c : PlaybackEventCollector) : Bool × PlaybackEventCollector × LocalPlayback.Loop :=
  if c.events.isEmpty then (true, c, .start)
  else
    match LocalPlayback.playback env stopRequested c.events with
    | (status, l) => if status.code = 0 then (true, c.clear, l) else (false, c, l)

/-- The records in the file of a device. -/
def recordsOf (device : DeviceKind) (written : List RawWrite) : List RawRecord :=
  (written.filter fun w => w.device = device).map RawWrite.record

/-- What the operations of a script write to a device directly. -/
def directRecords (env : Devices) (ops : List Operation) (device : DeviceKind) : List RawRecord :=
  recordsOf device (Operation.runAll (InputEventWriter.writeRaw env) ops .new).written

/-- What reaches a device when the operations are collected and then played to the end. -/
def collectedRecords (env : Devices) (clock : ℕ → ℤ) (ops : List Operation)
    (device : DeviceKind) : List RawRecord :=
  let c := Operation.runAll (PlaybackEventCollector.writeRaw clock) ops .new
  recordsOf device (c.uploadAndPlay env fun _ => false).2.2.writer.written

/-- The frame of an event that playback writes. -/
def Devices.played (env : Devices) (r : RawWrite) : List RawWrite :=
  if InputEventWriter.dropped r then [] else env.frame r

/-- What playback makes of the events collected for one raw write. -/
def Devices.replayed (env : Devices) (r : RawWrite) : List RawWrite :=
  (r.record.frame.map (RawWrite.mk r.device)).flatMap env.played

namespace LocalPlayback

section Complete

variable {env : Devices} (hwrites : ∀ n, env.writeFd n = true)
include hwrites

theorem write_succeeds (r : RawWrite) (w : InputEventWriter) :
    (InputEventWriter.write env r.device r.record.type r.record.code r.record.value w).1 =
      true := by
  rw [InputEventWriter.write_eq]
  split
  · rfl
  · exact InputEventWriter.writeRaw_succeeds hwrites _ _ _ _ _

theorem emits_write (r : RawWrite) :
    Emits (InputEventWriter.Remembers env) InputEventWriter.written
      (fun w =>
        (InputEventWriter.write env r.device r.record.type r.record.code r.record.value w).2)
      (env.played r) := by
  simp only [InputEventWriter.write_eq]
  unfold Devices.played
  split
  · exact emits_id
  · exact InputEventWriter.emits_writeRaw hwrites r

/-- Without a stop, complete writes play the whole batch. -/
theorem playEvents_eq (i : ℕ) (events : List InputEvent) (l : Loop) :
    (playEvents env (fun _ => false) i events l).1 = ⟨0, ""⟩ ∧
      (playEvents env (fun _ => false) i events l).2.writer =
        (events.map InputEvent.rawWrite).foldl (fun w r => (InputEventWriter.write env r.device
          r.record.type r.record.code r.record.value w).2) l.writer := by
  induction events generalizing i l with
  | nil => exact ⟨rfl, rfl⟩
  | cons e rest ih =>
    have hok := write_succeeds hwrites e.rawWrite l.writer
    rw [playEvents, if_neg Bool.false_ne_true]
    cases hwrite : InputEventWriter.write env e.device (UInt16.ofNat e.type)
        (UInt16.ofNat e.code) e.value l.writer with
    | mk ok writer =>
      have hwrite' : InputEventWriter.write env e.rawWrite.device e.rawWrite.record.type
          e.rawWrite.record.code e.rawWrite.record.value l.writer = (ok, writer) := hwrite
      rw [hwrite'] at hok
      obtain rfl : ok = true := hok
      rw [List.map_cons, List.foldl_cons, hwrite']
      exact ih _ _

/-- Playback of a batch writes the frames of its events. -/
theorem playback_written (cached : List InputEvent) :
    (playback env (fun _ => false) cached).2.writer.written =
      (cached.map InputEvent.rawWrite).flatMap env.played := by
  unfold playback
  split
  · rename_i hempty
    rw [List.isEmpty_iff.mp hempty]
    rfl
  · rw [(playEvents_eq hwrites 0 cached .start).2]
    have hemits := emits_foldl (cached.map InputEvent.rawWrite)
      (fun r _ => emits_write hwrites r)
    exact (hemits .new (InputEventWriter.remembers_new env)).1

/-- The interleaved playback and the loop as one function agree: a playback that returns without
error and without a stop has written the frames of the events it started. -/
theorem playback_written_of_run {cached : List InputEvent} {playing stopRequested : Bool}
    {currentEventIndex : ℤ} {labels : List Label} {t : State} {result : StatusCode}
    (h : Machine.run step (initial cached playing stopRequested currentEventIndex) labels = some t)
    (hidle : t.stopPc = .idle) (hpc : t.pc = .returned result) (hcode : result.code = 0) :
    (playback env (fun _ => false) cached).2.writer.written =
      (t.started.map InputEvent.rawWrite).flatMap env.played := by
  rw [started_eq_cached h hidle hpc hcode]
  exact playback_written hwrites cached

end Complete

end LocalPlayback

theorem recordsOf_flatMap {ι : Type*} (device : DeviceKind) (f : ι → List RawWrite)
    (xs : List ι) :
    recordsOf device (xs.flatMap f) = xs.flatMap fun x => recordsOf device (f x) := by
  induction xs with
  | nil => rfl
  | cons x xs ih =>
    rw [List.flatMap_cons, List.flatMap_cons, ← ih]
    simp [recordsOf]

theorem directRecords_eq {env : Devices} (hwrites : ∀ n, env.writeFd n = true)
    (ops : List Operation) (device : DeviceKind) :
    directRecords env ops device =
      (ops.flatMap Operation.rawWrites).flatMap fun r => recordsOf device (env.frame r) := by
  have hemits := emits_foldl (ops.flatMap Operation.rawWrites)
    (fun r _ => InputEventWriter.emits_writeRaw hwrites r)
  rw [directRecords, Operation.runAll_eq_foldl_issue (InputEventWriter.writeRaw_succeeds hwrites),
    (hemits .new (InputEventWriter.remembers_new env)).1]
  exact recordsOf_flatMap device env.frame _

theorem collectedRecords_eq {env : Devices} (hwrites : ∀ n, env.writeFd n = true)
    (clock : ℕ → ℤ) (ops : List Operation) (device : DeviceKind) :
    collectedRecords env clock ops device =
      (ops.flatMap Operation.rawWrites).flatMap fun r => recordsOf device (env.replayed r) := by
  have hemits := emits_foldl (ops.flatMap Operation.rawWrites)
    (fun r _ => PlaybackEventCollector.emits_writeRaw clock r)
  have hevents : (Operation.runAll (PlaybackEventCollector.writeRaw clock) ops .new).events.map
      InputEvent.rawWrite = (ops.flatMap Operation.rawWrites).flatMap fun r =>
        r.record.frame.map (RawWrite.mk r.device) := by
    rw [Operation.runAll_eq_foldl_issue fun _ _ _ _ _ => rfl]
    exact (hemits .new trivial).1
  have hplayed : ∀ c : PlaybackEventCollector,
      (c.uploadAndPlay env fun _ => false).2.2.writer.written =
        (c.events.map InputEvent.rawWrite).flatMap env.played := by
    intro c
    unfold PlaybackEventCollector.uploadAndPlay
    split
    · rename_i hempty
      rw [List.isEmpty_iff.mp hempty]
      rfl
    · rw [← LocalPlayback.playback_written hwrites c.events]
      dsimp only
      split <;> rfl
  rw [collectedRecords, hplayed, hevents, List.flatMap_assoc]
  exact recordsOf_flatMap device env.replayed _

/-- The frame of a device depends only on whether it can be opened. -/
theorem Devices.replayed_congr {env env' : Devices} {r : RawWrite}
    (hopen : env.openable r.device = env'.openable r.device) :
    env.replayed r = env'.replayed r := by
  unfold Devices.replayed
  rw [List.flatMap_map, List.flatMap_map]
  apply List.flatMap_congr
  intro record _
  simp only [Devices.played, Devices.frame, hopen]

/-- The reports of a record. -/
def RawRecord.reports (r : RawRecord) : List RawRecord := r.frame.tail

theorem RawRecord.frame_eq (r : RawRecord) : r.frame = r :: r.reports := by
  unfold RawRecord.reports RawRecord.frame
  split <;> rfl

theorem RawRecord.type_of_mem_reports {r s : RawRecord} (hs : s ∈ r.reports) :
    s.type = ushort evSyn := by
  unfold RawRecord.reports RawRecord.frame at hs
  split at hs
  · cases hs
  · rw [List.tail_cons] at hs
    split at hs <;> simp at hs
    · rcases hs with rfl | rfl <;> rfl
    · subst hs
      rfl

theorem RawRecord.reports_eq_nil_iff (r : RawRecord) :
    r.reports = [] ↔ r.type = ushort evSyn := by
  unfold RawRecord.reports RawRecord.frame
  split <;> simp_all

/-- A collected report is played as it is. -/
theorem Devices.played_report {env : Devices} {device : DeviceKind} {r : RawRecord}
    (hr : r.type = ushort evSyn) :
    env.played ⟨device, r⟩ = if env.openable device then [⟨device, r⟩] else [] := by
  have hkept : ¬ InputEventWriter.dropped ⟨device, r⟩ := by
    rintro ⟨-, htype, -⟩
    rw [hr] at htype
    exact absurd htype (by decide)
  rw [Devices.played, if_neg hkept, Devices.frame, RawRecord.frame, if_pos hr]
  rfl

/-- Playback writes the collected reports once more after the frame. -/
theorem Devices.replayed_eq {env : Devices} {r : RawWrite} (hkept : ¬ InputEventWriter.dropped r) :
    env.replayed r = env.frame r ++
      if env.openable r.device then r.record.reports.map (RawWrite.mk r.device) else [] := by
  have hreports : (r.record.reports.map (RawWrite.mk r.device)).flatMap env.played =
      if env.openable r.device then r.record.reports.map (RawWrite.mk r.device) else [] := by
    rw [List.flatMap_map, List.flatMap_congr fun s hs =>
      Devices.played_report (RawRecord.type_of_mem_reports hs)]
    split
    · exact List.flatMap_pure_eq_map _ _
    · simp
  have hfirst : env.played r = env.frame r := if_neg hkept
  rw [Devices.replayed, RawRecord.frame_eq, List.map_cons, List.flatMap_cons, hreports, ← hfirst]

/-- The operation issues no event that gets reports on a device that can be opened. -/
def Operation.Unreported (env : Devices) : Operation → Prop
  | .press _ | .release _ | .repeatKey _ => env.openable .keyboard = false
  | .writeKeyboard type _ value => env.openable .keyboard = false ∨ type = ushort evSyn ∨
    (type = ushort evKey ∧ value ≠ 0 ∧ value ≠ 1 ∧ value ≠ 2)
  | .move dx dy => env.openable .mouse = false ∨ (dx = 0 ∧ dy = 0)
  | .moveToScaled _ _ width height => env.openable .mouse = false ∨ width ≤ 0 ∨ height ≤ 0
  | .moveTo _ _ | .scrollV _ | .scrollH _ | .buttonDown _ | .buttonUp _ | .buttonClick _ =>
    env.openable .mouse = false
  | .writeMouse type _ _ => env.openable .mouse = false ∨ type = ushort evSyn

theorem Operation.unreported_iff (env : Devices) (op : Operation) :
    op.Unreported env ↔
      ∀ r ∈ op.rawWrites, env.openable r.device = false ∨ r.record.type = ushort evSyn := by
  have hkey : ushort evKey ≠ ushort evSyn := by decide
  have hrel : ushort evRel ≠ ushort evSyn := by decide
  have habs : ushort evAbs ≠ ushort evSyn := by decide
  cases op with
  | writeKeyboard type code value =>
    simp only [Operation.Unreported, Operation.rawWrites]
    split
    · rename_i hdropped
      simp only [hdropped, ne_eq, not_false_eq_true, and_self, or_true, List.not_mem_nil,
        false_implies, implies_true]
    · simp only [List.mem_singleton, forall_eq]
      tauto
  | move dx dy =>
    simp only [Operation.Unreported, Operation.rawWrites]
    by_cases hx : dx = 0 <;> by_cases hy : dy = 0 <;>
      simp only [hx, hy, if_true, if_false, List.nil_append, List.append_nil, List.mem_append,
        List.mem_singleton, List.not_mem_nil, forall_eq, forall_eq_or_imp, hrel, or_false,
        false_implies, implies_true, and_self, and_true, and_false, or_true]
  | moveToScaled x y width height =>
    simp only [Operation.Unreported, Operation.rawWrites]
    split
    · rename_i hsize
      simp only [hsize, or_true, List.not_mem_nil, false_implies, implies_true]
    · rename_i hsize
      simp only [hsize, or_false, List.mem_cons, List.not_mem_nil, forall_eq, forall_eq_or_imp,
        habs, and_self]
  | press _ | release _ | repeatKey _ | buttonDown _ | buttonUp _ | scrollV _ | scrollH _
  | writeMouse _ _ _ =>
    simp only [Operation.Unreported, Operation.rawWrites, List.mem_singleton, forall_eq, hkey, hrel,
      or_false]
  | moveTo _ _ | buttonClick _ =>
    simp only [Operation.Unreported, Operation.rawWrites, List.mem_cons, List.not_mem_nil,
      forall_eq, forall_eq_or_imp, hkey, habs, or_false, and_self]

/-- The keyboard writer of playback drops nothing that an operation has issued. -/
theorem Operation.not_dropped {op : Operation} {r : RawWrite} (hr : r ∈ op.rawWrites) :
    ¬ InputEventWriter.dropped r := by
  rintro ⟨hdevice, htype, h0, h1, h2⟩
  rcases Operation.rawWrites_kept hr with ⟨-, hvalue⟩ | hmouse
  · rcases hvalue htype with h | h | h
    · exact h0 h
    · exact h1 h
    · exact h2 h
  · rw [hdevice] at hmouse
    cases hmouse

theorem recordsOf_map_mk (device : DeviceKind) (records : List RawRecord) :
    recordsOf device (records.map (RawWrite.mk device)) = records := by
  induction records with
  | nil => rfl
  | cons r records ih =>
    rw [List.map_cons, recordsOf, List.filter_cons_of_pos (by simp), List.map_cons]
    exact congrArg _ ih

/-- Both paths to the devices agree exactly on the scripts that issue nothing that gets a
report. -/
theorem collectedRecords_eq_directRecords_iff {env env' : Devices}
    (hwrites : ∀ n, env.writeFd n = true) (hwrites' : ∀ n, env'.writeFd n = true)
    (hopen : ∀ device, env'.openable device = env.openable device) (clock : ℕ → ℤ)
    (ops : List Operation) :
    (∀ device, collectedRecords env' clock ops device = directRecords env ops device) ↔
      ∀ op ∈ ops, op.Unreported env := by
  have hreplayed : ∀ r ∈ ops.flatMap Operation.rawWrites, env'.replayed r = env.frame r ++
      if env.openable r.device then r.record.reports.map (RawWrite.mk r.device) else [] := by
    intro r hr
    obtain ⟨op, -, hr⟩ := List.mem_flatMap.mp hr
    rw [Devices.replayed_congr (hopen r.device)]
    exact Devices.replayed_eq (Operation.not_dropped hr)
  simp only [collectedRecords_eq hwrites', directRecords_eq hwrites]
  constructor
  · intro hall op hop
    rw [Operation.unreported_iff]
    intro r hr
    by_contra hreported
    obtain ⟨hopened, htype⟩ := not_or.mp hreported
    rw [Bool.not_eq_false] at hopened
    have hmem : r ∈ ops.flatMap Operation.rawWrites := List.mem_flatMap.mpr ⟨op, hop, hr⟩
    -- on the device of `r` playback writes more records than the direct path
    refine absurd (congrArg List.length (hall r.device)) (Nat.ne_of_gt ?_)
    rw [List.length_flatMap, List.length_flatMap]
    refine List.sum_lt_sum _ _ (fun x hx => ?_) ⟨r, hmem, ?_⟩
    · rw [hreplayed x hx]
      simp [recordsOf]
    · have hreports : 0 < r.record.reports.length := by
        apply List.length_pos_iff.mpr
        rwa [ne_eq, RawRecord.reports_eq_nil_iff]
      rw [hreplayed r hmem, if_pos hopened]
      have hown := congrArg List.length (recordsOf_map_mk r.device r.record.reports)
      simp only [recordsOf, List.filter_append, List.map_append, List.length_append] at hown ⊢
      omega
  · intro hall device
    apply List.flatMap_congr
    intro r hr
    obtain ⟨op, hop, hmem⟩ := List.mem_flatMap.mp hr
    rw [hreplayed r hr]
    rcases (Operation.unreported_iff env op).mp (hall op hop) r hmem with hclosed | hsyn
    · rw [hclosed, if_neg Bool.false_ne_true, List.append_nil]
    · rw [(RawRecord.reports_eq_nil_iff r.record).mpr hsyn, List.map_nil, ite_self, List.append_nil]

/-- A keyboard and a mouse that can be opened, and writes that succeed. -/
def keyboardAndMouse : Devices where
  findAllDevicePaths
    | .keyboard => ["/dev/input/event3"]
    | .mouse => ["/dev/input/event4"]
    | _ => []
  openFd _ _ := true
  writeFd _ := true

/-- A collected key press reaches the keyboard with two reports. -/
theorem collected_press_has_two_reports :
    directRecords keyboardAndMouse [.press (ushort keyA)] .keyboard =
        [⟨ushort evKey, ushort keyA, 1⟩, ⟨ushort evSyn, ushort synReport, 0⟩] ∧
      collectedRecords keyboardAndMouse (fun _ => 0) [.press (ushort keyA)] .keyboard =
        [⟨ushort evKey, ushort keyA, 1⟩, ⟨ushort evSyn, ushort synReport, 0⟩,
          ⟨ushort evSyn, ushort synReport, 0⟩] := by
  decide

theorem collectedRecords_eq_directRecords_iff_explicitReport :
    (∀ device, collectedRecords keyboardAndMouse (fun _ => 0)
        [.move 0 0, .writeMouse (ushort evSyn) (ushort synReport) 0] device =
      directRecords keyboardAndMouse
        [.move 0 0, .writeMouse (ushort evSyn) (ushort synReport) 0] device) ∧
      directRecords keyboardAndMouse
        [.move 0 0, .writeMouse (ushort evSyn) (ushort synReport) 0] .mouse =
          [⟨ushort evSyn, ushort synReport, 0⟩] := by
  refine ⟨(collectedRecords_eq_directRecords_iff (fun _ => rfl) (fun _ => rfl) (fun _ => rfl)
    (fun _ => 0) _).mpr ?_, by decide⟩
  simp [Operation.Unreported]

end Evrp
