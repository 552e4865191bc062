import Evrp.Lib.Emission
import Evrp.Sdk.RawEventWriter

/-!
# Writing events to the device files

The writer looks for the file of a device once and remembers the outcome; events
of a device without a file are accepted and dropped. Every event that is not
itself a synchronisation event is followed by its reports.
-/

namespace Evrp

/-- What the writer meets: the paths found for a device, whether a path can be opened, and
whether the n-th write of a record is complete. -/
structure Devices where
  findAllDevicePaths : DeviceKind → List String
  openFd : DeviceKind → String → Bool
  writeFd : ℕ → Bool

/-- The device has a file that can be opened. -/
def Devices.openable (env : Devices) (device : DeviceKind) : Bool :=
  device != .unspecified && (env.findAllDevicePaths device).any (env.openFd device)

/-- The file of the device: the first of its paths that can be opened. -/
def Devices.fileOf (env : Devices) (device : DeviceKind) : Option String :=
  if device = .unspecified then none
  else (env.findAllDevicePaths device).find? (env.openFd device)

/-- The writer: per device the remembered outcome, which is the path of the open descriptor or
none, the records written in order, and the number of writes tried. A device is opened at most
once, so in a record that is written it stands for its descriptor. -/
structure InputEventWriter where
  kindToFd : DeviceKind → Option (Option String)
  written : List RawWrite
  writes : ℕ

namespace InputEventWriter

/-- A new writer. -/
def new : InputEventWriter := ⟨fun _ => none, [], 0⟩

/-- The descriptor of the device, by the path it was opened with. -/
def getFd (env : Devices) (device : DeviceKind) (w : InputEventWriter) :
    Option String × InputEventWriter :=
  if device = .unspecified then (none, w)
  else
    match w.kindToFd device with
    | some fd => (fd, w)
    | none =>
      match (env.findAllDevicePaths device).find? (env.openFd device) with
      | some devPath =>
        (some devPath,
          { w with kindToFd := Function.update w.kindToFd device (some (some devPath)) })
      | none => (none, { w with kindToFd := Function.update w.kindToFd device (some none) })

def writeEvent (env : Devices) (fd : DeviceKind) (type code : UInt16) (value : ℤ)
    (w : InputEventWriter) : Bool × InputEventWriter :=
  let complete := env.writeFd w.writes
  (complete, { w with
    written := if complete then w.written ++ [⟨fd, ⟨type, code, value⟩⟩] else w.written
    writes := w.writes + 1 })

/-- The event ends a multi-touch contact and is followed by its own report. -/
def needsMt (type code : UInt16) (value : ℤ) : Bool :=
  type == ushort evAbs &&
    (code == ushort absMtPositionY || (code == ushort absMtTrackingId && value == -1))

/-- Write an event and, unless it is a synchronisation event, its reports. -/
def writeEventWithSync (env : Devices) (fd : DeviceKind) (type code : UInt16) (value : ℤ)
    (w : InputEventWriter) : Bool × InputEventWriter :=
  let (ok, w) := writeEvent env fd type code value w
  if ok then
    if type ≠ ushort evSyn then
      let (ok, w) :=
        if needsMt type code value then
          writeEvent env fd (ushort evSyn) (ushort synMtReport) 0 w
        else (true, w)
      if ok then writeEvent env fd (ushort evSyn) (ushort synReport) 0 w else (false, w)
    else (true, w)
  else (false, w)

def writeRaw (env : Devices) : IRawEventWriter InputEventWriter :=
  fun device type code value w =>
    let (fd, w) := getFd env device w
    if fd.isSome then writeEventWithSync env device type code value w else (true, w)

/-- Playback writes through the keyboard and the mouse writer, other devices directly. -/
def write (env : Devices) (device : DeviceKind) (type code : UInt16) (value : ℤ) :
    InputEventWriter → Bool × InputEventWriter :=
  if device = .keyboard then KeyboardEventWriter.write (writeRaw env) type code value
  else if device = .mouse then MouseEventWriter.write (writeRaw env) type code value
  else writeRaw env device type code value

/-- A new writer after some writes. -/
def after (env : Devices) (writes : List RawWrite) : InputEventWriter :=
  writes.foldl
    (fun w r => (write env r.device r.record.type r.record.code r.record.value w).2) new

end InputEventWriter

/-- The record gives the last coordinate of a multi-touch contact, or ends the contact. -/
def RawRecord.EndsContact (r : RawRecord) : Prop :=
  r.type = ushort evAbs ∧
    (r.code = ushort absMtPositionY ∨ r.code = ushort absMtTrackingId ∧ r.value = -1)

instance (r : RawRecord) : Decidable r.EndsContact := inferInstanceAs (Decidable (_ ∧ _))

/-- The records that reach a device file for one raw write. -/
def RawRecord.frame (r : RawRecord) : List RawRecord :=
  if r.type = ushort evSyn then [r]
  else
    r :: ((if r.EndsContact then [⟨ushort evSyn, ushort synMtReport, 0⟩] else []) ++
      [⟨ushort evSyn, ushort synReport, 0⟩])

/-- The frame of a raw write, if its device has a file. -/
def Devices.frame (env : Devices) (w : RawWrite) : List RawWrite :=
  if env.openable w.device then w.record.frame.map (RawWrite.mk w.device) else []

namespace InputEventWriter

open Emission

theorem needsMt_iff (r : RawRecord) : needsMt r.type r.code r.value = true ↔ r.EndsContact := by
  simp only [needsMt, RawRecord.EndsContact, Bool.and_eq_true, Bool.or_eq_true, beq_iff_eq]

/-- What the writer remembers of a device is its file. -/
def Remembers (env : Devices) (w : InputEventWriter) : Prop :=
  ∀ device fd, w.kindToFd device = some fd → fd = env.fileOf device

theorem remembers_new (env : Devices) : Remembers env new := nofun

theorem remembers_update {env : Devices} {w : InputEventWriter} (hw : Remembers env w)
    {device : DeviceKind} {fd : Option String} (hfd : fd = env.fileOf device) :
    Remembers env { w with kindToFd := Function.update w.kindToFd device (some fd) } := by
  intro other answer hother
  by_cases heq : other = device
  · subst heq
    simp only [Function.update_self] at hother
    exact Option.some.inj hother ▸ hfd
  · simp only [Function.update_of_ne heq] at hother
    exact hw other answer hother

theorem isSome_fileOf (env : Devices) (device : DeviceKind) :
    (env.fileOf device).isSome = env.openable device := by
  rw [Devices.fileOf, Devices.openable]
  split
  · rename_i hdevice
    simp [hdevice]
  · rename_i hdevice
    simp [hdevice, List.isSome_find?]

/-- The lookup answers with the file of the device and writes nothing. -/
theorem getFd_spec (env : Devices) (device : DeviceKind) {w : InputEventWriter}
    (hw : Remembers env w) :
    (getFd env device w).1 = env.fileOf device ∧ Remembers env (getFd env device w).2 ∧
      (getFd env device w).2.written = w.written := by
  unfold getFd
  split
  · rename_i hdevice
    exact ⟨(if_pos hdevice).symm, hw, rfl⟩
  · rename_i hdevice
    have hfile : env.fileOf device = (env.findAllDevicePaths device).find? (env.openFd device) :=
      if_neg hdevice
    split
    · rename_i fd hfound
      exact ⟨hw device fd hfound, hw, rfl⟩
    · split
      · rename_i devPath hpath
        have hfd := (hfile.trans hpath).symm
        exact ⟨hfd, remembers_update hw hfd, rfl⟩
      · rename_i hnone
        have hfd := (hfile.trans hnone).symm
        exact ⟨hfd, remembers_update hw hfd, rfl⟩

theorem kindToFd_writeEventWithSync (env : Devices) (fd : DeviceKind) (type code : UInt16)
    (value : ℤ) (w : InputEventWriter) :
    (writeEventWithSync env fd type code value w).2.kindToFd = w.kindToFd := by
  simp only [writeEventWithSync, writeEvent]
  split_ifs <;> rfl

theorem remembers_writeRaw {env : Devices} {w : InputEventWriter} (hw : Remembers env w)
    (device : DeviceKind) (type code : UInt16) (value : ℤ) :
    Remembers env (writeRaw env device type code value w).2 := by
  obtain ⟨-, hremembers, -⟩ := getFd_spec env device hw
  unfold writeRaw
  dsimp only
  split
  · intro other fd hknown
    rw [kindToFd_writeEventWithSync] at hknown
    exact hremembers other fd hknown
  · exact hremembers

section Complete

variable {env : Devices} (hwrites : ∀ n, env.writeFd n = true)
include hwrites

theorem writeEvent_of_complete (fd : DeviceKind) (type code : UInt16) (value : ℤ)
    (w : InputEventWriter) :
    writeEvent env fd type code value w = (true, { w with
      written := w.written ++ [⟨fd, ⟨type, code, value⟩⟩]
      writes := w.writes + 1 }) := by
  simp only [writeEvent, hwrites, if_true]

/-- A complete write of an event puts its frame into the file. -/
theorem writeEventWithSync_spec (fd : DeviceKind) (type code : UInt16) (value : ℤ)
    (w : InputEventWriter) :
    (writeEventWithSync env fd type code value w).1 = true ∧
      (writeEventWithSync env fd type code value w).2.written =
        w.written ++ (RawRecord.frame ⟨type, code, value⟩).map (RawWrite.mk fd) := by
  unfold writeEventWithSync RawRecord.frame
  by_cases hsyn : type = ushort evSyn
  · simp [writeEvent_of_complete hwrites, hsyn]
  · have hmt := needsMt_iff ⟨type, code, value⟩
    by_cases hends : RawRecord.EndsContact ⟨type, code, value⟩
    · simp [writeEvent_of_complete hwrites, hsyn, hmt.mpr hends, hends]
    · simp [writeEvent_of_complete hwrites, hsyn, Bool.eq_false_of_not_eq_true (hmt.not.mpr hends),
        hends]

theorem writeRaw_succeeds (device : DeviceKind) (type code : UInt16) (value : ℤ)
    (w : InputEventWriter) : (writeRaw env device type code value w).1 = true := by
  unfold writeRaw
  dsimp only
  split
  · exact (writeEventWithSync_spec hwrites device type code value _).1
  · rfl

/-- A raw write emits its frame. -/
theorem emits_writeRaw (r : RawWrite) :
    Emits (Remembers env) written (fun w => Operation.issue (writeRaw env) w r)
      (env.frame r) := by
  intro w hw
  refine ⟨?_, remembers_writeRaw hw r.device r.record.type r.record.code r.record.value⟩
  obtain ⟨hfd, -, hwritten⟩ := getFd_spec env r.device hw
  unfold Operation.issue writeRaw Devices.frame
  dsimp only
  rw [hfd, isSome_fileOf]
  split
  · obtain ⟨-, hframe⟩ := writeEventWithSync_spec hwrites r.device r.record.type
      r.record.code r.record.value (getFd env r.device w).2
    exact hframe.trans (by rw [hwritten])
  · simp [hwritten]

end Complete

/-- The event is one that the keyboard writer drops. -/
def dropped (w : RawWrite) : Prop :=
  w.device = .keyboard ∧ w.record.type = ushort evKey ∧
    w.record.value ≠ 0 ∧ w.record.value ≠ 1 ∧ w.record.value ≠ 2

instance (w : RawWrite) : Decidable (dropped w) := inferInstanceAs (Decidable (_ ∧ _))

/-- A write of playback is a raw write, unless the keyboard writer drops it. -/
theorem write_eq (env : Devices) (r : RawWrite) (w : InputEventWriter) :
    write env r.device r.record.type r.record.code r.record.value w =
      if dropped r then (true, w)
      else writeRaw env r.device r.record.type r.record.code r.record.value w := by
  obtain ⟨device, type, code, value⟩ := r
  cases device with
  | keyboard =>
    by_cases hdropped : dropped ⟨.keyboard, ⟨type, code, value⟩⟩
    · obtain ⟨-, htype, h0, h1, h2⟩ := id hdropped
      rw [if_pos hdropped, write, if_pos rfl, KeyboardEventWriter.write, if_pos htype, if_neg h0,
        if_neg h1, if_neg h2]
    · rw [if_neg hdropped, write, if_pos rfl, KeyboardEventWriter.write]
      split_ifs with htype h0 h1 h2
      · obtain rfl : type = ushort evKey := htype
        obtain rfl : value = 0 := h0
        rfl
      · obtain rfl : type = ushort evKey := htype
        obtain rfl : value = 1 := h1
        rfl
      · obtain rfl : type = ushort evKey := htype
        obtain rfl : value = 2 := h2
        rfl
      · exact absurd ⟨rfl, htype, h0, h1, h2⟩ hdropped
      · rfl
  | _ =>
    rw [if_neg fun h => DeviceKind.noConfusion h.1]
    rfl

theorem remembers_write {env : Devices} {w : InputEventWriter} (hw : Remembers env w)
    (r : RawWrite) :
    Remembers env (write env r.device r.record.type r.record.code r.record.value w).2 := by
  rw [write_eq]
  split
  · exact hw
  · exact remembers_writeRaw hw r.device r.record.type r.record.code r.record.value

theorem remembers_after (env : Devices) (writes : List RawWrite) :
    Remembers env (after env writes) :=
  List.foldlRecOn writes _ (remembers_new env) fun _ hw r _ => remembers_write hw r

end InputEventWriter

end Evrp
