import Evrp.Sdk.Event

/-!
# The keyboard device and its Ctrl+C filter

The filter buffers every keyboard event from the first Ctrl key on until the
last Ctrl key is released, and decides only then whether the buffered window is
written, cut after its last KEY_C press or dropped. The decision is one
definition, used at the three places where the code leaves a window.
-/

namespace Evrp

open Numeral

/-- How Ctrl+C chords are treated while keyboard events are recorded. -/
inductive KeyboardCtrlCFilterMode where
  | off
  | full
  | endingOnly
  deriving DecidableEq, Repr

/-- The filter's memory between two keyboard events. -/
structure KeyboardFilterState where
  ctrlDownCount : ℤ
  sawCtrlC : Bool
  pendingEvents : List Event
  deriving DecidableEq, Repr

/-- The zero state. -/
def KeyboardFilterState.initial : KeyboardFilterState := ⟨0, false, []⟩

/-- A key event without a time. -/
def makeKeyEvent (code : ℕ) (value : ℤ) : Event := ⟨0, 0, evKey, code, value⟩

/-- The name of a key in the annotation of a recorded line. -/
def keyboardKeyNameFromCode (code : ℕ) : List Char :=
  if keyA ≤ code ∧ code ≤ keyZ then [Char.ofNat (65 + (code - keyA))]
  else if key1 ≤ code ∧ code ≤ key9 then [Char.ofNat (49 + (code - key1))]
  else if code = key0 then "0".toList
  else if code = keyLeftctrl then "LEFTCTRL".toList
  else if code = keyRightctrl then "RIGHTCTRL".toList
  else if code = keyLeftshift then "LEFTSHIFT".toList
  else if code = keyRightshift then "RIGHTSHIFT".toList
  else if code = keyLeftalt then "LEFTALT".toList
  else if code = keyRightalt then "RIGHTALT".toList
  else if code = keySpace then "SPACE".toList
  else if code = keyEnter then "ENTER".toList
  else if code = keyEsc then "ESC".toList
  else if code = keyTab then "TAB".toList
  else if code = keyBackspace then "BACKSPACE".toList
  else "unknown(".toList ++ renderNat code ++ ")".toList

/-- The name of a key action in the annotation of a recorded line. -/
def keyboardKeyActionFromValue (value : ℤ) : List Char :=
  if value = 0 then "release".toList
  else if value = 1 then "press".toList
  else if value = 2 then "repeat".toList
  else "unknown(".toList ++ renderInt value ++ ")".toList

/-- The filter mode of a settings label: blanks and case do not matter, and every
other label switches the filter off. -/
def keyboardCtrlCFilterModeFromLabel (label : List Char) : KeyboardCtrlCFilterMode :=
  let t := (label.filter fun c => !isSpace c).map Char.toLower
  if t = "full".toList then .full
  else if t = "ending".toList ∨ t = "endingonly".toList then .endingOnly
  else .off

/-- Either Ctrl key. -/
def Event.isCtrlKey (e : Event) : Bool := e.code == keyLeftctrl || e.code == keyRightctrl

/-- A press or a repeat of KEY_C. -/
def Event.isCtrlCPress (e : Event) : Bool :=
  e.type == evKey && e.code == keyC && (e.value == 1 || e.value == 2)

/-- Position of the last KEY_C press or repeat, or the length when there is none. -/
def lastCtrlCPress (pending : List Event) : ℕ :=
  pending.zipIdx.foldl (fun last e => if e.1.isCtrlCPress then e.2 else last) pending.length

/-- The buffered events up to and including the last KEY_C press. -/
def emitPendingThroughLastCtrlCPress (pending : List Event) : List Event :=
  if lastCtrlCPress pending < pending.length then pending.take (lastCtrlCPress pending + 1)
  else []

/-- What a window emits when it is left: all of it without Ctrl+C, its beginning in
ending-only mode, and nothing in full mode. -/
def KeyboardFilterState.emitPending (mode : KeyboardCtrlCFilterMode)
    (s : KeyboardFilterState) : List Event :=
  if !s.sawCtrlC then s.pendingEvents
  else if mode = .endingOnly then emitPendingThroughLastCtrlCPress s.pendingEvents
  else []

/-- The state of the filter right after a window has been left. -/
def KeyboardFilterState.cleared (s : KeyboardFilterState) : KeyboardFilterState :=
  { s with sawCtrlC := false, pendingEvents := [] }

/-- The state in which a Ctrl key event has been counted and buffered. -/
def KeyboardFilterState.bufferCtrl (s : KeyboardFilterState) (ev : Event) :
    KeyboardFilterState :=
  let pressed := if ev.value = 1 then s.ctrlDownCount + 1 else s.ctrlDownCount
  { s with
    ctrlDownCount := if ev.value = 0 ∧ 0 < pressed then pressed - 1 else pressed
    pendingEvents := s.pendingEvents ++ [ev] }

/-- An event outside every Ctrl-held window is emitted behind what is still buffered. -/
def KeyboardFilterState.passThrough (mode : KeyboardCtrlCFilterMode) (s : KeyboardFilterState)
    (ev : Event) : KeyboardFilterState × List Event :=
  if s.pendingEvents ≠ [] ∧ s.ctrlDownCount = 0 then (s.cleared, s.emitPending mode ++ [ev])
  else (s, [ev])

/-- One keyboard event through the filter: the next state and the emitted events. -/
def processKeyboardEventWithCtrlFilter (ev : Event) (mode : KeyboardCtrlCFilterMode)
    (s : KeyboardFilterState) : KeyboardFilterState × List Event :=
  if mode = .off then (s, [ev])
  else if ev.type = evKey then
    if ev.isCtrlKey then
      let buffered := s.bufferCtrl ev
      if ev.value = 0 ∧ buffered.ctrlDownCount = 0 then
        (buffered.cleared, buffered.emitPending mode)
      else (buffered, [])
    else if 0 < s.ctrlDownCount then
      ({ s with
          pendingEvents := s.pendingEvents ++ [ev]
          sawCtrlC := s.sawCtrlC || (ev.code == keyC && (ev.value == 1 || ev.value == 2)) }, [])
    else s.passThrough mode ev
  else if 0 < s.ctrlDownCount then
    ({ s with pendingEvents := s.pendingEvents ++ [ev] }, [])
  else s.passThrough mode ev

/-- The end of the stream: a window no longer held is emitted, a held one stays buffered. -/
def flushKeyboardEventFilter (mode : KeyboardCtrlCFilterMode) (s : KeyboardFilterState) :
    KeyboardFilterState × List Event :=
  if mode = .off then (s, [])
  else if s.ctrlDownCount ≠ 0 then (s, [])
  else (s.cleared, if s.pendingEvents ≠ [] then s.emitPending mode else [])

/-- Along every run the counter is not negative, and Ctrl+C is remembered only while a
Ctrl key is held and only together with the buffered KEY_C event. -/
structure KeyboardFilterState.Sound (s : KeyboardFilterState) : Prop where
  count_nonneg : 0 ≤ s.ctrlDownCount
  saw_held : s.sawCtrlC = true → 0 < s.ctrlDownCount
  saw_pending : s.sawCtrlC = true → ∃ e ∈ s.pendingEvents, e.isCtrlCPress = true

theorem KeyboardFilterState.sound_initial : KeyboardFilterState.initial.Sound :=
  ⟨le_refl _, nofun, nofun⟩

end Evrp
