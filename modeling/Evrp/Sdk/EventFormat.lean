import Evrp.Lib.Text
import Evrp.Sdk.Keyboard

/-!
# The line format of recordings

A recorded line is `[label] sec.usec type=..(..) code=.. value=..` with optional
annotations; a duration line is `[label] sec.usec`. The formatter splits a delta
at the floor to whole seconds, so that the microsecond field is never negative.
The parser works by positions: it looks for each key from the end of the field
before it and stops at the first delimiter, which is why every annotation must
avoid the first character of the next key.
-/

namespace Evrp

open Text Numeral Word

/-- The text between the first brackets, or nothing. -/
def parseEventLabel (line : List Char) : List Char :=
  match find '[' line 0 with
  | none => []
  | some lb =>
    match find ']' line (lb + 1) with
    | none => []
    | some rb => substr line (lb + 1) (rb - lb - 1)

/-- Seconds and microseconds of a time token, read as two integers. -/
def parseTimeToken (token : List Char) : Option ℤ :=
  (find '.' token 0).bind fun dot =>
    if dot = 0 ∨ token.length ≤ dot + 1 then none
    else
      (stoll (substr token 0 dot)).bind fun sec =>
        (stoll (token.drop (dot + 1))).bind fun usec =>
          some (wrap 64 (wrap 64 (sec * 1000000) + usec))

/-- The text of the field that follows `key`, and the position of its delimiter. -/
def fieldToken (key delimiters line : List Char) (pos : ℕ) : Option (List Char × ℕ) :=
  (findStr key line pos).map fun p =>
    let start := p + key.length
    let stop := (findFirstOf delimiters line start).getD line.length
    (substr line start (stop - start), stop)

/-- The fields of a recorded event line. -/
structure EventLine where
  deltaUs : ℤ
  type : ℕ
  code : ℕ
  value : ℤ
  deriving DecidableEq, Repr

/-- Parse an event line; type and code are cut to 16 bits after conversion. -/
def parseEventLine (line : List Char) : Option EventLine :=
  (findStr "] ".toList line 0).bind fun bracket =>
    let tsStart := bracket + 2
    (find ' ' line tsStart).bind fun tsEnd =>
      if tsEnd ≤ tsStart then none
      else
        (parseTimeToken (substr line tsStart (tsEnd - tsStart))).bind fun deltaUs =>
          (fieldToken "type=".toList "( ".toList line tsEnd).bind fun typeField =>
            (stoul typeField.1).bind fun type =>
              (fieldToken "code=".toList "( ".toList line typeField.2).bind fun codeField =>
                (stoul codeField.1).bind fun code =>
                  (fieldToken "value=".toList " /".toList line codeField.2).bind fun valueField =>
                    (stoi valueField.1).bind fun value =>
                      some ⟨deltaUs, type % 65536, code % 65536, value⟩

/-- Parse a duration line with the expected label. -/
def parseLabeledDurationLine (line expectedLabel : List Char) : Option ℤ :=
  if parseEventLabel line ≠ expectedLabel then none
  else (findStr "] ".toList line 0).bind fun bracket => parseTimeToken (line.drop (bracket + 2))

def parseLeadingLine (line : List Char) : Option ℤ :=
  parseLabeledDurationLine line "leading".toList

def parseTrailingLine (line : List Char) : Option ℤ :=
  parseLabeledDurationLine line "trailing".toList

/-- The name of an event type. -/
def eventTypeName (type : ℕ) : List Char :=
  if type = evSyn then "EV_SYN".toList
  else if type = evKey then "EV_KEY".toList
  else if type = evRel then "EV_REL".toList
  else if type = evAbs then "EV_ABS".toList
  else if type = evMsc then "EV_MSC".toList
  else "EV_UNKNOWN".toList

/-- The name of an event code, where the format names it. -/
def eventCodeName (type code : ℕ) : List Char :=
  if type = evMsc then
    if code = mscScan then "MSC_SCAN".toList
    else if code = mscTimestamp then "MSC_TIMESTAMP".toList
    else []
  else if type = evSyn then
    if code = synReport then "SYN_REPORT".toList
    else if code = synMtReport then "SYN_MT_REPORT".toList
    else []
  else []

/-- Whole seconds and remaining microseconds; the remainder is made non-negative. -/
def splitDelta (deltaUs : ℤ) : ℤ × ℤ :=
  let deltaSec := deltaUs.tdiv 1000000
  let deltaUsec := deltaUs.tmod 1000000
  if deltaUsec < 0 then (deltaSec - 1, deltaUsec + 1000000) else (deltaSec, deltaUsec)

/-- The time token of a line. -/
def formatTimeToken (deltaUs : ℤ) : List Char :=
  renderInt (splitDelta deltaUs).1 ++
    ('.' :: padLeft 6 '0' (renderNat (splitDelta deltaUs).2.natAbs))

/-- The comment that keyboard lines end with. -/
def keyboardComment (ev : Event) : List Char :=
  if ev.type = evKey then
    " // key=".toList ++ keyboardKeyNameFromCode ev.code ++ " action=".toList ++
      keyboardKeyActionFromValue ev.value
  else " // key=N/A action=non-key-event".toList

/-- The code name in parentheses, where there is one. -/
def codeNote (ev : Event) : List Char :=
  if (eventCodeName ev.type ev.code).isEmpty then []
  else "(".toList ++ eventCodeName ev.type ev.code ++ ")".toList

/-- The recorded line of an event at a delta from the first event. -/
def formatEventLine (device : DeviceKind) (ev : Event) (deltaUs : ℤ) : List Char :=
  "[".toList ++ device.toLabel ++ "] ".toList ++ formatTimeToken deltaUs ++
    " type=".toList ++ renderNat ev.type ++ "(".toList ++ eventTypeName ev.type ++ ")".toList ++
    " code=".toList ++ renderNat ev.code ++ codeNote ev ++
    " value=".toList ++ renderInt ev.value ++
    (if device = .keyboard then keyboardComment ev else [])

def formatDurationLine (label : List Char) (deltaUs : ℤ) : List Char :=
  "[".toList ++ label ++ "] ".toList ++ formatTimeToken deltaUs

def formatLeadingLine (deltaUs : ℤ) : List Char := formatDurationLine "leading".toList deltaUs

def formatTrailingLine (deltaUs : ℤ) : List Char := formatDurationLine "trailing".toList deltaUs

end Evrp
