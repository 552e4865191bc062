import Evrp.Sdk.InputEventWriter

/-!
# Collecting events for one playback

The collector takes raw writes like a device does, adds the reports itself and
stamps every event on a timeline of its own: one microsecond from event to event,
and the time between two calls as the clock shows it.
-/

namespace Evrp

/-- The buffered events, the time of the next one, and the clock reading of the last call; the
clock is read once per batch. -/
structure PlaybackEventCollector where
  events : List InputEvent
  timelineUs : ℤ
  lastWall : Option ℤ
  clockReads : ℕ
  deriving DecidableEq, Repr

namespace PlaybackEventCollector

/-- A new collector. -/
def new : PlaybackEventCollector := ⟨[], 0, none, 0⟩

def clear (c : PlaybackEventCollector) : PlaybackEventCollector :=
  { c with events := [], timelineUs := 0, lastWall := none }

/-- Stamp the events one microsecond apart; also the time after the last one. -/
def stamp (timelineUs : ℤ) : List InputEvent → List InputEvent × ℤ
  | [] => ([], timelineUs)
  | e :: rest =>
    let (stamped, last) := stamp (timelineUs + 1) rest
    ({ e with timeSec := timelineUs.tdiv 1000000, timeUsec := timelineUs.tmod 1000000 } :: stamped,
      last)

/-- The time of the next event: a positive gap of the clock, in microseconds, moves it. -/
def nextTimelineUs (c : PlaybackEventCollector) (wall : ℤ) : ℤ :=
  match c.lastWall with
  | some lastWall =>
    let gap := (wall - lastWall).tdiv 1000
    if 0 < gap then c.timelineUs + gap else c.timelineUs
  | none => c.timelineUs

def appendBatchWithTimeline (clock : ℕ → ℤ) (batch : List InputEvent)
    (c : PlaybackEventCollector) : PlaybackEventCollector :=
  if batch.isEmpty then c
  else
    let wall := clock c.clockReads
    let (stamped, timelineUs) := stamp (c.nextTimelineUs wall) batch
    ⟨c.events ++ stamped, timelineUs, some wall, c.clockReads + 1⟩

/-- An event of a batch before it is stamped. -/
def push (device : DeviceKind) (type code : UInt16) (value : ℤ) : InputEvent :=
  ⟨device, 0, 0, type.toNat, code.toNat, value⟩

/-- The event ends a multi-touch contact and is followed by its own report. -/
def needsMt (type code : UInt16) (value : ℤ) : Bool :=
  type == ushort evAbs &&
    (code == ushort absMtPositionY || (code == ushort absMtTrackingId && value == -1))

/-- Buffer the event and, unless it is a synchronisation event, its reports. -/
def writeRaw (clock : ℕ → ℤ) : IRawEventWriter PlaybackEventCollector :=
  fun device type code value c =>
    let reports :=
      if type ≠ ushort evSyn then
        (if needsMt type code value then [push device (ushort evSyn) (ushort synMtReport) 0]
          else []) ++ [push device (ushort evSyn) (ushort synReport) 0]
      else []
    (true, appendBatchWithTimeline clock (push device type code value :: reports) c)

def takeEvents (c : PlaybackEventCollector) : List InputEvent × PlaybackEventCollector :=
  (c.events, c.clear)

end PlaybackEventCollector

/-- The event as playback hands it to the writer. -/
def InputEvent.rawWrite (e : InputEvent) : RawWrite :=
  ⟨e.device, ⟨UInt16.ofNat e.type, UInt16.ofNat e.code, e.value⟩⟩

namespace PlaybackEventCollector

open Emission

theorem map_rawWrite_stamp (timelineUs : ℤ) (batch : List InputEvent) :
    (stamp timelineUs batch).1.map InputEvent.rawWrite = batch.map InputEvent.rawWrite := by
  induction batch generalizing timelineUs with
  | nil => rfl
  | cons e rest ih =>
    simp only [stamp, List.map_cons, ih]
    rfl

theorem needsMt_iff (r : RawRecord) : needsMt r.type r.code r.value = true ↔ r.EndsContact := by
  simp only [needsMt, RawRecord.EndsContact, Bool.and_eq_true, Bool.or_eq_true, beq_iff_eq]

/-- The two copies of the rule agree. -/
theorem needsMt_eq (type code : UInt16) (value : ℤ) :
    needsMt type code value = InputEventWriter.needsMt type code value := by
  rw [Bool.eq_iff_iff]
  exact (needsMt_iff ⟨type, code, value⟩).trans
    (InputEventWriter.needsMt_iff ⟨type, code, value⟩).symm

@[simp] theorem rawWrite_push (device : DeviceKind) (type code : UInt16) (value : ℤ) :
    (push device type code value).rawWrite = ⟨device, ⟨type, code, value⟩⟩ := by
  simp [push, InputEvent.rawWrite]

/-- A raw write buffers its frame, whether the device can be opened or not. -/
theorem emits_writeRaw (clock : ℕ → ℤ) (r : RawWrite) :
    Emits (fun _ => True) (fun c : PlaybackEventCollector => c.events.map InputEvent.rawWrite)
      (fun c => Operation.issue (writeRaw clock) c r)
      (r.record.frame.map (RawWrite.mk r.device)) := by
  intro c _
  refine ⟨?_, trivial⟩
  obtain ⟨device, type, code, value⟩ := r
  unfold Operation.issue writeRaw appendBatchWithTimeline RawRecord.frame
  simp only [List.isEmpty_cons, Bool.false_eq_true, if_false, List.map_append, map_rawWrite_stamp]
  by_cases hsyn : type = ushort evSyn
  · simp [hsyn]
  · have hmt := needsMt_iff ⟨type, code, value⟩
    by_cases hends : RawRecord.EndsContact ⟨type, code, value⟩
    · simp [hsyn, hmt.mpr hends, hends]
    · simp [hsyn, Bool.eq_false_of_not_eq_true (hmt.not.mpr hends), hends]

end PlaybackEventCollector

end Evrp
