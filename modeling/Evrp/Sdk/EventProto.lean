import Evrp.Sdk.Event

/-!
# Events as protobuf messages

Events cross the RPC boundary field by field in the widths of the program's own
record. The device is an open enumeration: a number that names no kind is read
as the unspecified kind.
-/

namespace Evrp

open Word

/-- The number of a kind in the protocol. -/
def DeviceKind.toProto : DeviceKind → Int32
  | .touchpad => 1
  | .touchscreen => 2
  | .mouse => 3
  | .keyboard => 4
  | .unspecified => 0

/-- The kind of a number of the protocol. -/
def DeviceKind.fromProto (k : Int32) : DeviceKind :=
  if k = 1 then .touchpad
  else if k = 2 then .touchscreen
  else if k = 3 then .mouse
  else if k = 4 then .keyboard
  else .unspecified

@[simp] theorem DeviceKind.fromProto_toProto (k : DeviceKind) : fromProto k.toProto = k := by
  cases k <;> decide

/-- The message of an event. -/
structure ProtoInputEvent where
  device : Int32
  timeSec : Int64
  timeUsec : Int64
  type : UInt32
  code : UInt32
  value : Int32
  deriving DecidableEq, Repr

def InputEvent.toProto (e : InputEvent) : ProtoInputEvent :=
  ⟨e.device.toProto, Int64.ofInt e.timeSec, Int64.ofInt e.timeUsec, UInt32.ofNat e.type,
    UInt32.ofNat e.code, Int32.ofInt e.value⟩

def InputEvent.fromProto (p : ProtoInputEvent) : InputEvent :=
  ⟨DeviceKind.fromProto p.device, p.timeSec.toInt, p.timeUsec.toInt, p.type.toNat, p.code.toNat,
    p.value.toInt⟩

/-- The fields have the widths of the program's record. -/
structure InputEvent.Sized (e : InputEvent) : Prop where
  timeSec : Fits64 e.timeSec
  timeUsec : Fits64 e.timeUsec
  type : e.type < 2 ^ 32
  code : e.code < 2 ^ 32
  value : Fits32 e.value

/-- An event of the program's record survives its message. -/
theorem InputEvent.fromProto_toProto {e : InputEvent} (h : e.Sized) :
    InputEvent.fromProto e.toProto = e := by
  unfold InputEvent.fromProto InputEvent.toProto
  rw [DeviceKind.fromProto_toProto, Int64.toInt_ofInt_of_le h.timeSec.1 h.timeSec.2,
    Int64.toInt_ofInt_of_le h.timeUsec.1 h.timeUsec.2, UInt32.toNat_ofNat_of_lt' h.type,
    UInt32.toNat_ofNat_of_lt' h.code, Int32.toInt_ofInt_of_le h.value.1 h.value.2]

/-- Sent events arrive as they are. -/
theorem InputEvent.map_fromProto_toProto {events : List InputEvent}
    (h : ∀ e ∈ events, e.Sized) :
    (events.map InputEvent.toProto).map InputEvent.fromProto = events := by
  rw [List.map_map]
  exact (List.map_congr_left fun e he => InputEvent.fromProto_toProto (h e he)).trans
    (List.map_id _)

end Evrp
