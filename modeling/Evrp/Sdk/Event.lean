import Evrp.Lib.Numeral

/-!
# Devices and input events

The two event records of the program: the evdev-shaped `Event` with 16-bit type
and code, and the `InputEvent` of the RPC interface, which also names a device
and carries 32-bit type and code. Times are seconds and microseconds of one
64-bit timeline. The numeric constants are those of the Linux input event codes.
-/

namespace Evrp

open Word

/-- The kinds of input device that are recorded and replayed. -/
inductive DeviceKind where
  | unspecified
  | touchpad
  | touchscreen
  | mouse
  | keyboard
  deriving DecidableEq, Repr

/-- An event as the device service and the recorder exchange it. -/
structure InputEvent where
  device : DeviceKind
  timeSec : ℤ
  timeUsec : ℤ
  type : ℕ
  code : ℕ
  value : ℤ
  deriving DecidableEq, Repr

/-- An event as evdev delivers it. -/
structure Event where
  sec : ℤ
  usec : ℤ
  type : ℕ
  code : ℕ
  value : ℤ
  deriving DecidableEq, Repr

/-- The result pair of a device operation. -/
structure StatusCode where
  code : ℤ
  message : String
  deriving DecidableEq, Repr

abbrev evSyn : ℕ := 0
abbrev evKey : ℕ := 1
abbrev evRel : ℕ := 2
abbrev evAbs : ℕ := 3
abbrev evMsc : ℕ := 4

abbrev synReport : ℕ := 0
abbrev synMtReport : ℕ := 2

abbrev mscScan : ℕ := 4
abbrev mscTimestamp : ℕ := 5

abbrev relX : ℕ := 0
abbrev relY : ℕ := 1
abbrev relHwheel : ℕ := 6
abbrev relWheel : ℕ := 8

abbrev absX : ℕ := 0
abbrev absY : ℕ := 1
abbrev absMtSlot : ℕ := 47
abbrev absMtPositionY : ℕ := 54
abbrev absMtTrackingId : ℕ := 57

abbrev keyEsc : ℕ := 1
abbrev key1 : ℕ := 2
abbrev key9 : ℕ := 10
abbrev key0 : ℕ := 11
abbrev keyBackspace : ℕ := 14
abbrev keyTab : ℕ := 15
abbrev keyEnter : ℕ := 28
abbrev keyLeftctrl : ℕ := 29
abbrev keyA : ℕ := 30
abbrev keyLeftshift : ℕ := 42
abbrev keyZ : ℕ := 44
abbrev keyC : ℕ := 46
abbrev keyV : ℕ := 47
abbrev keyRightshift : ℕ := 54
abbrev keyLeftalt : ℕ := 56
abbrev keySpace : ℕ := 57
abbrev keyRightctrl : ℕ := 97
abbrev keyRightalt : ℕ := 100

abbrev btnToolFinger : ℕ := 325
abbrev btnTouch : ℕ := 330
abbrev btnToolDoubletap : ℕ := 333
abbrev btnToolTripletap : ℕ := 334
abbrev btnToolQuadtap : ℕ := 335

/-- The device named by a label; every other label is unspecified. -/
def toKind (label : List Char) : DeviceKind :=
  if label = "keyboard".toList then .keyboard
  else if label = "mouse".toList then .mouse
  else if label = "touchpad".toList then .touchpad
  else if label = "touchscreen".toList then .touchscreen
  else .unspecified

/-- The label of a device. -/
def DeviceKind.toLabel : DeviceKind → List Char
  | .keyboard => "keyboard".toList
  | .mouse => "mouse".toList
  | .touchpad => "touchpad".toList
  | .touchscreen => "touchscreen".toList
  | .unspecified => []

/-- Every label is read back as its device. -/
@[simp] theorem toKind_toLabel (k : DeviceKind) : toKind k.toLabel = k := by
  cases k <;> decide

/-- The time of an event on the 64-bit microsecond timeline. -/
def InputEvent.timeUs (e : InputEvent) : ℤ :=
  wrap 64 (wrap 64 (e.timeSec * 1000000) + e.timeUsec)

theorem InputEvent.timeUs_eq (e : InputEvent) (h : Fits64 (e.timeSec * 1000000 + e.timeUsec)) :
    e.timeUs = e.timeSec * 1000000 + e.timeUsec := by
  rw [InputEvent.timeUs, wrap_wrap_add, wrap64_of_fits h]

/-- The evdev record of an event: type and code are cut to 16 bits. -/
def InputEvent.toEvent (e : InputEvent) : Event :=
  ⟨e.timeSec, e.timeUsec, e.type % 65536, e.code % 65536, e.value⟩

/-- The event of a device made from its evdev record. -/
def Event.toInputEvent (device : DeviceKind) (e : Event) : InputEvent :=
  ⟨device, e.sec, e.usec, e.type, e.code, e.value⟩

/-- Type and code have the width evdev gives them. -/
def InputEvent.FromEvdev (e : InputEvent) : Prop := e.type < 65536 ∧ e.code < 65536

instance (e : InputEvent) : Decidable e.FromEvdev := inferInstanceAs (Decidable (_ ∧ _))

/-- An event that came from evdev survives the passage through its evdev record. -/
theorem InputEvent.toInputEvent_toEvent {e : InputEvent} (h : e.FromEvdev) :
    e.toEvent.toInputEvent e.device = e := by
  obtain ⟨htype, hcode⟩ := h
  simp only [InputEvent.toEvent, Event.toInputEvent, Nat.mod_eq_of_lt htype,
    Nat.mod_eq_of_lt hcode]

end Evrp
