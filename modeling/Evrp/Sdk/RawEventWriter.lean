import Evrp.Sdk.Event

/-!
# Keyboard and mouse operations

The operations a script can use. Each is a short list of raw writes to whatever
sink stands behind the writer: a device, or the collector whose events are
played later. The operations are generic in the sink; what a sink sees of an
operation whose writes all succeed is its list of raw writes.
-/

namespace Evrp

open Word

/-- A constant or parameter of type `unsigned short`. -/
abbrev ushort (n : ℕ) : UInt16 := UInt16.ofNat n

/-- A record of type, code and value as a device file takes it. -/
structure RawRecord where
  type : UInt16
  code : UInt16
  value : ℤ
  deriving DecidableEq, Repr

/-- A record for a device. -/
structure RawWrite where
  device : DeviceKind
  record : RawRecord
  deriving DecidableEq, Repr

/-- The interface of a sink: a raw write succeeds or fails and changes the sink. -/
abbrev IRawEventWriter (σ : Type*) := DeviceKind → UInt16 → UInt16 → ℤ → σ → Bool × σ

variable {σ : Type*}

namespace KeyboardEventWriter

variable (writeRaw : IRawEventWriter σ)

def press (keyCode : UInt16) : σ → Bool × σ := writeRaw .keyboard (ushort evKey) keyCode 1

def release (keyCode : UInt16) : σ → Bool × σ := writeRaw .keyboard (ushort evKey) keyCode 0

def repeatKey (keyCode : UInt16) : σ → Bool × σ := writeRaw .keyboard (ushort evKey) keyCode 2

/-- A key event with a value that is none of the three is dropped. -/
def write (type code : UInt16) (value : ℤ) : σ → Bool × σ :=
  if type = ushort evKey then
    if value = 0 then release writeRaw code
    else if value = 1 then press writeRaw code
    else if value = 2 then repeatKey writeRaw code
    else fun s => (true, s)
  else writeRaw .keyboard type code value

end KeyboardEventWriter

namespace MouseEventWriter

variable (writeRaw : IRawEventWriter σ)

def move (dx dy : ℤ) (s : σ) : Bool × σ :=
  let (ok, s) := if dx ≠ 0 then writeRaw .mouse (ushort evRel) (ushort relX) dx s else (true, s)
  if ok && dy ≠ 0 then writeRaw .mouse (ushort evRel) (ushort relY) dy s else (ok, s)

def moveTo (x y : ℤ) (s : σ) : Bool × σ :=
  let (ok, s) := writeRaw .mouse (ushort evAbs) (ushort absX) x s
  if ok then writeRaw .mouse (ushort evAbs) (ushort absY) y s else (ok, s)

/-- One coordinate on the absolute axis; the product has the width of `int`. -/
def scaled (x width : ℤ) : ℤ :=
  let maxVal := 32767
  if x < 0 then 0 else if width < x then maxVal else (wrap 32 (x * maxVal)).tdiv width

def moveToScaled (x y width height : ℤ) (s : σ) : Bool × σ :=
  if width ≤ 0 ∨ height ≤ 0 then (false, s)
  else moveTo writeRaw (scaled x width) (scaled y height) s

def scrollV (value : ℤ) : σ → Bool × σ :=
  writeRaw .mouse (ushort evRel) (ushort relWheel) value

def scrollH (value : ℤ) : σ → Bool × σ :=
  writeRaw .mouse (ushort evRel) (ushort relHwheel) value

def buttonDown (btn : UInt16) : σ → Bool × σ := writeRaw .mouse (ushort evKey) btn 1

def buttonUp (btn : UInt16) : σ → Bool × σ := writeRaw .mouse (ushort evKey) btn 0

def buttonClick (btn : UInt16) (s : σ) : Bool × σ :=
  let (ok, s) := buttonDown writeRaw btn s
  if ok then buttonUp writeRaw btn s else (ok, s)

def write (type code : UInt16) (value : ℤ) : σ → Bool × σ := writeRaw .mouse type code value

end MouseEventWriter

/-- One operation of a script. -/
inductive Operation where
  | press (keyCode : UInt16)
  | release (keyCode : UInt16)
  | repeatKey (keyCode : UInt16)
  | writeKeyboard (type code : UInt16) (value : ℤ)
  | move (dx dy : ℤ)
  | moveTo (x y : ℤ)
  | moveToScaled (x y width height : ℤ)
  | scrollV (value : ℤ)
  | scrollH (value : ℤ)
  | buttonDown (btn : UInt16)
  | buttonUp (btn : UInt16)
  | buttonClick (btn : UInt16)
  | writeMouse (type code : UInt16) (value : ℤ)
  deriving DecidableEq, Repr

namespace Operation

/-- The operation on a sink. -/
def run (writeRaw : IRawEventWriter σ) : Operation → σ → Bool × σ
  | press keyCode => KeyboardEventWriter.press writeRaw keyCode
  | release keyCode => KeyboardEventWriter.release writeRaw keyCode
  | repeatKey keyCode => KeyboardEventWriter.repeatKey writeRaw keyCode
  | writeKeyboard type code value => KeyboardEventWriter.write writeRaw type code value
  | move dx dy => MouseEventWriter.move writeRaw dx dy
  | moveTo x y => MouseEventWriter.moveTo writeRaw x y
  | moveToScaled x y width height => MouseEventWriter.moveToScaled writeRaw x y width height
  | scrollV value => MouseEventWriter.scrollV writeRaw value
  | scrollH value => MouseEventWriter.scrollH writeRaw value
  | buttonDown btn => MouseEventWriter.buttonDown writeRaw btn
  | buttonUp btn => MouseEventWriter.buttonUp writeRaw btn
  | buttonClick btn => MouseEventWriter.buttonClick writeRaw btn
  | writeMouse type code value => MouseEventWriter.write writeRaw type code value

/-- The operations of a script, one after the other. -/
def runAll (writeRaw : IRawEventWriter σ) (ops : List Operation) (s : σ) : σ :=
  ops.foldl (fun s op => (op.run writeRaw s).2) s

/-- The raw writes an operation issues while they succeed. -/
def rawWrites : Operation → List RawWrite
  | press keyCode => [⟨.keyboard, ⟨ushort evKey, keyCode, 1⟩⟩]
  | release keyCode => [⟨.keyboard, ⟨ushort evKey, keyCode, 0⟩⟩]
  | repeatKey keyCode => [⟨.keyboard, ⟨ushort evKey, keyCode, 2⟩⟩]
  | writeKeyboard type code value =>
    if type = ushort evKey ∧ value ≠ 0 ∧ value ≠ 1 ∧ value ≠ 2 then []
    else [⟨.keyboard, ⟨type, code, value⟩⟩]
  | move dx dy =>
    (if dx = 0 then [] else [⟨.mouse, ⟨ushort evRel, ushort relX, dx⟩⟩]) ++
      if dy = 0 then [] else [⟨.mouse, ⟨ushort evRel, ushort relY, dy⟩⟩]
  | moveTo x y =>
    [⟨.mouse, ⟨ushort evAbs, ushort absX, x⟩⟩, ⟨.mouse, ⟨ushort evAbs, ushort absY, y⟩⟩]
  | moveToScaled x y width height =>
    if width ≤ 0 ∨ height ≤ 0 then []
    else [⟨.mouse, ⟨ushort evAbs, ushort absX, MouseEventWriter.scaled x width⟩⟩,
      ⟨.mouse, ⟨ushort evAbs, ushort absY, MouseEventWriter.scaled y height⟩⟩]
  | scrollV value => [⟨.mouse, ⟨ushort evRel, ushort relWheel, value⟩⟩]
  | scrollH value => [⟨.mouse, ⟨ushort evRel, ushort relHwheel, value⟩⟩]
  | buttonDown btn => [⟨.mouse, ⟨ushort evKey, btn, 1⟩⟩]
  | buttonUp btn => [⟨.mouse, ⟨ushort evKey, btn, 0⟩⟩]
  | buttonClick btn =>
    [⟨.mouse, ⟨ushort evKey, btn, 1⟩⟩, ⟨.mouse, ⟨ushort evKey, btn, 0⟩⟩]
  | writeMouse type code value => [⟨.mouse, ⟨type, code, value⟩⟩]

/-- The sink after a raw write. -/
def issue (writeRaw : IRawEventWriter σ) (s : σ) (w : RawWrite) : σ :=
  (writeRaw w.device w.record.type w.record.code w.record.value s).2

/-- A sink whose writes succeed sees exactly the raw writes of an operation. -/
theorem run_eq_foldl_issue {writeRaw : IRawEventWriter σ}
    (hok : ∀ device type code value s, (writeRaw device type code value s).1 = true)
    (op : Operation) (s : σ) :
    (op.run writeRaw s).2 = op.rawWrites.foldl (issue writeRaw) s := by
  cases op with
  | writeKeyboard type code value =>
    simp only [run, KeyboardEventWriter.write, rawWrites]
    by_cases htype : type = ushort evKey
    · subst htype
      by_cases h0 : value = 0
      · subst h0
        rfl
      by_cases h1 : value = 1
      · subst h1
        rfl
      by_cases h2 : value = 2
      · subst h2
        rfl
      simp only [h0, h1, h2, if_true, if_false, ne_eq, not_false_eq_true, and_self, List.foldl_nil]
    · simp only [htype, if_false, false_and, List.foldl_cons, List.foldl_nil, issue]
  | move dx dy =>
    simp only [run, MouseEventWriter.move, rawWrites, List.foldl_append]
    by_cases hx : dx = 0 <;> by_cases hy : dy = 0 <;> simp [hx, hy, hok, issue]
  | moveTo x y => simp [run, MouseEventWriter.moveTo, rawWrites, hok, issue]
  | moveToScaled x y width height =>
    simp only [run, MouseEventWriter.moveToScaled, rawWrites]
    split
    · rfl
    · simp [MouseEventWriter.moveTo, hok, issue]
  | buttonClick btn =>
    simp [run, MouseEventWriter.buttonClick, MouseEventWriter.buttonDown,
      MouseEventWriter.buttonUp, rawWrites, hok, issue]
  | _ => rfl

/-- A script whose writes succeed is the sequence of its raw writes. -/
theorem runAll_eq_foldl_issue {writeRaw : IRawEventWriter σ}
    (hok : ∀ device type code value s, (writeRaw device type code value s).1 = true)
    (ops : List Operation) (s : σ) :
    runAll writeRaw ops s = (ops.flatMap rawWrites).foldl (issue writeRaw) s := by
  induction ops generalizing s with
  | nil => rfl
  | cons op ops ih =>
    rw [List.flatMap_cons, List.foldl_append, ← run_eq_foldl_issue hok]
    exact ih _

/-- Operations write to the keyboard or the mouse, and to the keyboard only key events that it
does not drop. -/
theorem rawWrites_kept {op : Operation} {w : RawWrite} (hw : w ∈ op.rawWrites) :
    w.device = .keyboard ∧ (w.record.type = ushort evKey →
      w.record.value = 0 ∨ w.record.value = 1 ∨ w.record.value = 2) ∨ w.device = .mouse := by
  cases op with
  | writeKeyboard type code value =>
    simp only [rawWrites] at hw
    split at hw
    · cases hw
    · rename_i hkept
      obtain rfl := List.mem_singleton.mp hw
      refine Or.inl ⟨rfl, fun htype => ?_⟩
      by_contra hvalue
      obtain ⟨h0, hrest⟩ := not_or.mp hvalue
      obtain ⟨h1, h2⟩ := not_or.mp hrest
      exact hkept ⟨htype, h0, h1, h2⟩
  | move dx dy =>
    simp only [rawWrites, List.mem_append] at hw
    rcases hw with hx | hy
    · split at hx
      · cases hx
      · exact Or.inr (List.mem_singleton.mp hx ▸ rfl)
    · split at hy
      · cases hy
      · exact Or.inr (List.mem_singleton.mp hy ▸ rfl)
  | moveToScaled x y width height =>
    simp only [rawWrites] at hw
    split at hw
    · cases hw
    · simp only [List.mem_cons, List.not_mem_nil, or_false] at hw
      rcases hw with rfl | rfl <;> exact Or.inr rfl
  | moveTo x y =>
    simp only [rawWrites, List.mem_cons, List.not_mem_nil, or_false] at hw
    rcases hw with rfl | rfl <;> exact Or.inr rfl
  | buttonClick btn =>
    simp only [rawWrites, List.mem_cons, List.not_mem_nil, or_false] at hw
    rcases hw with rfl | rfl <;> exact Or.inr rfl
  | press keyCode =>
    obtain rfl := List.mem_singleton.mp hw
    exact Or.inl ⟨rfl, fun _ => Or.inr (Or.inl rfl)⟩
  | release keyCode =>
    obtain rfl := List.mem_singleton.mp hw
    exact Or.inl ⟨rfl, fun _ => Or.inl rfl⟩
  | repeatKey keyCode =>
    obtain rfl := List.mem_singleton.mp hw
    exact Or.inl ⟨rfl, fun _ => Or.inr (Or.inr rfl)⟩
  | _ =>
    obtain rfl := List.mem_singleton.mp hw
    exact Or.inr rfl

end Operation

end Evrp
