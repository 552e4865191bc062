import Mathlib.Order.Lattice
import Evrp.Sdk.RawEventWriter

/-!
# The operations a Lua script calls

A script passes 64-bit integers. Key and button codes are refused unless they
are 16-bit numbers. Coordinates are narrowed to `int` without a check, and a
scaled move multiplies before it divides, again in an `int`. A scaled move is
therefore exact only while narrowing does not move the point and the product of
a coordinate inside of the screen fits.
-/

namespace Evrp

open Word

variable {σ : Type*}

/-- What the bindings find: the script's dry run flag, and which writers are installed. -/
structure LuaGlobals where
  dryRun : Bool
  gKeyboard : Bool
  gMouse : Bool
  deriving DecidableEq, Repr

/-- What a binding leaves: an error of the script or the boolean it pushes, and the sink. -/
abbrev LuaReturn (σ : Type*) := Except String Bool × σ

/-- An argument narrowed to `int`. -/
def toInt (z : ℤ) : ℤ := wrap 32 z

/-- The part that all bindings share behind the checks of their arguments. -/
def dispatch (dryRun installed : Bool) (missing : String) (op : σ → Bool × σ) (s : σ) :
    LuaReturn σ :=
  if dryRun then (.ok true, s)
  else if !installed then (.error missing, s)
  else
    let (ok, s) := op s
    (.ok ok, s)

@[simp] theorem dispatch_installed (missing : String) (op : σ → Bool × σ) (s : σ) :
    dispatch false true missing op s = (.ok (op s).1, (op s).2) := rfl

/-- A key or button code is refused unless it is a 16-bit number. -/
def withCode (invalid : String) (code : ℤ) (call : UInt16 → σ → LuaReturn σ) (s : σ) :
    LuaReturn σ :=
  if code < 0 ∨ 0xFFFF < code then (.error (invalid ++ toString code), s)
  else call (ushort code.toNat) s

section Bindings

variable (writeRaw : IRawEventWriter σ) (lua : LuaGlobals)

def onKeyboard (op : σ → Bool × σ) : σ → LuaReturn σ :=
  dispatch lua.dryRun lua.gKeyboard "evrp keyboard not initialized" op

def onMouse (op : σ → Bool × σ) : σ → LuaReturn σ :=
  dispatch lua.dryRun lua.gMouse "evrp mouse not initialized" op

def luaPress (code : ℤ) : σ → LuaReturn σ :=
  withCode "invalid key code: " code fun c => onKeyboard lua (KeyboardEventWriter.press writeRaw c)

def luaRelease (code : ℤ) : σ → LuaReturn σ :=
  withCode "invalid key code: " code fun c =>
    onKeyboard lua (KeyboardEventWriter.release writeRaw c)

/-- A click is a press and, if that succeeds, a release. -/
def luaClick (code : ℤ) : σ → LuaReturn σ :=
  withCode "invalid key code: " code fun c => onKeyboard lua fun s =>
    let (ok, s) := KeyboardEventWriter.press writeRaw c s
    if ok then KeyboardEventWriter.release writeRaw c s else (false, s)

def luaMouseMove (dx dy : ℤ) : σ → LuaReturn σ :=
  onMouse lua (MouseEventWriter.move writeRaw (toInt dx) (toInt dy))

def luaMouseMoveTo (x y : ℤ) : σ → LuaReturn σ :=
  onMouse lua (MouseEventWriter.moveTo writeRaw (toInt x) (toInt y))

def luaMouseMoveToScaled (x y width height : ℤ) : σ → LuaReturn σ :=
  onMouse lua
    (MouseEventWriter.moveToScaled writeRaw (toInt x) (toInt y) (toInt width) (toInt height))

def luaMouseScrollV (value : ℤ) : σ → LuaReturn σ :=
  onMouse lua (MouseEventWriter.scrollV writeRaw (toInt value))

def luaMouseScrollH (value : ℤ) : σ → LuaReturn σ :=
  onMouse lua (MouseEventWriter.scrollH writeRaw (toInt value))

def luaMouseButtonDown (btn : ℤ) : σ → LuaReturn σ :=
  withCode "invalid button code: " btn fun c => onMouse lua (MouseEventWriter.buttonDown writeRaw c)

def luaMouseButtonUp (btn : ℤ) : σ → LuaReturn σ :=
  withCode "invalid button code: " btn fun c => onMouse lua (MouseEventWriter.buttonUp writeRaw c)

def luaMouseButtonClick (btn : ℤ) : σ → LuaReturn σ :=
  withCode "invalid button code: " btn fun c =>
    onMouse lua (MouseEventWriter.buttonClick writeRaw c)

/-- A call of a script, with the arguments as the script passes them. -/
inductive Binding where
  | press (code : ℤ)
  | release (code : ℤ)
  | click (code : ℤ)
  | mouseMove (dx dy : ℤ)
  | mouseMoveTo (x y : ℤ)
  | mouseMoveToScaled (x y width height : ℤ)
  | mouseScrollV (value : ℤ)
  | mouseScrollH (value : ℤ)
  | mouseButtonDown (btn : ℤ)
  | mouseButtonUp (btn : ℤ)
  | mouseButtonClick (btn : ℤ)
  deriving DecidableEq, Repr

def Binding.call : Binding → σ → LuaReturn σ
  | .press code => luaPress writeRaw lua code
  | .release code => luaRelease writeRaw lua code
  | .click code => luaClick writeRaw lua code
  | .mouseMove dx dy => luaMouseMove writeRaw lua dx dy
  | .mouseMoveTo x y => luaMouseMoveTo writeRaw lua x y
  | .mouseMoveToScaled x y width height => luaMouseMoveToScaled writeRaw lua x y width height
  | .mouseScrollV value => luaMouseScrollV writeRaw lua value
  | .mouseScrollH value => luaMouseScrollH writeRaw lua value
  | .mouseButtonDown btn => luaMouseButtonDown writeRaw lua btn
  | .mouseButtonUp btn => luaMouseButtonUp writeRaw lua btn
  | .mouseButtonClick btn => luaMouseButtonClick writeRaw lua btn

end Bindings

/-- A dry run and an error of the script leave the sink as it is. -/
def Untouched (dryRun : Bool) (s : σ) (result : LuaReturn σ) : Prop :=
  dryRun = true ∨ (∃ message, result.1 = .error message) → result.2 = s

theorem untouched_dispatch (dryRun installed : Bool) (missing : String) (op : σ → Bool × σ)
    (s : σ) : Untouched dryRun s (dispatch dryRun installed missing op s) := by
  intro h
  cases dryRun with
  | true => rfl
  | false =>
    cases installed with
    | false => rfl
    | true =>
      rcases h with hdry | ⟨message, herror⟩
      · cases hdry
      · cases herror

/-- A code is refused or handed on as it is. -/
theorem withCode_cases (invalid : String) (code : ℤ) (call : UInt16 → σ → LuaReturn σ) (s : σ) :
    (¬ (0 ≤ code ∧ code ≤ 65535) ∧
        withCode invalid code call s = (.error (invalid ++ toString code), s)) ∨
      ∃ c : UInt16, (c.toNat : ℤ) = code ∧ withCode invalid code call s = call c s := by
  unfold withCode
  split
  · rename_i hcode
    exact Or.inl ⟨by omega, rfl⟩
  · rename_i hcode
    refine Or.inr ⟨ushort code.toNat, ?_, rfl⟩
    rw [UInt16.toNat_ofNat']
    omega

theorem untouched_withCode {dryRun : Bool} {s : σ} (invalid : String) (code : ℤ)
    {call : UInt16 → σ → LuaReturn σ} (hcall : ∀ c, Untouched dryRun s (call c s)) :
    Untouched dryRun s (withCode invalid code call s) := by
  intro h
  rcases withCode_cases invalid code call s with ⟨-, hrefused⟩ | ⟨c, -, hcalled⟩
  · rw [hrefused]
  · rw [hcalled] at h ⊢
    exact hcall c h

theorem Binding.untouched_call (writeRaw : IRawEventWriter σ) (lua : LuaGlobals) (b : Binding)
    (s : σ) : Untouched lua.dryRun s (b.call writeRaw lua s) := by
  have hkeyboard : ∀ op, Untouched lua.dryRun s (onKeyboard lua op s) := fun op =>
    untouched_dispatch lua.dryRun lua.gKeyboard _ op s
  have hmouse : ∀ op, Untouched lua.dryRun s (onMouse lua op s) := fun op =>
    untouched_dispatch lua.dryRun lua.gMouse _ op s
  cases b with
  | press code => exact untouched_withCode _ code fun _ => hkeyboard _
  | release code => exact untouched_withCode _ code fun _ => hkeyboard _
  | click code => exact untouched_withCode _ code fun _ => hkeyboard _
  | mouseButtonDown btn => exact untouched_withCode _ btn fun _ => hmouse _
  | mouseButtonUp btn => exact untouched_withCode _ btn fun _ => hmouse _
  | mouseButtonClick btn => exact untouched_withCode _ btn fun _ => hmouse _
  | _ => exact hmouse _

/-! ## Scaled moves -/

/-- Where a coordinate lies on the absolute axis, as a fraction of the size. -/
def scaledPosition (x size : ℤ) : ℤ := min (max x 0) size * 32767 / size

theorem scaledPosition_mem {size : ℤ} (hsize : 0 < size) (x : ℤ) :
    0 ≤ scaledPosition x size ∧ scaledPosition x size ≤ 32767 := by
  have hlow : 0 ≤ min (max x 0) size := le_min (le_max_right _ _) hsize.le
  have hhigh : min (max x 0) size ≤ size := min_le_right _ _
  refine ⟨Int.ediv_nonneg (by omega) hsize.le, Int.ediv_le_of_le_mul hsize ?_⟩
  omega

theorem scaledPosition_le {size : ℤ} (hsize : 0 < size) {x y : ℤ} (hle : x ≤ y) :
    scaledPosition x size ≤ scaledPosition y size := by
  refine Int.ediv_le_ediv hsize ?_
  have hclamped : min (max x 0) size ≤ min (max y 0) size :=
    min_le_min_right _ (max_le_max_right _ hle)
  omega

/-- The product that the writer forms for a coordinate inside of the screen. -/
def ProductFits (x size : ℤ) : Prop := 0 ≤ x → x ≤ size → Fits32 (x * 32767)

/-- A coordinate inside of the screen is small enough to be multiplied. -/
def SmallInside (x size : ℤ) : Prop := 0 ≤ x → x ≤ size → x ≤ 65538

instance (x size : ℤ) : Decidable (ProductFits x size) := inferInstanceAs (Decidable (_ → _ → _))

instance (x size : ℤ) : Decidable (SmallInside x size) := inferInstanceAs (Decidable (_ → _ → _))

theorem productFits_iff (x size : ℤ) : ProductFits x size ↔ SmallInside x size := by
  unfold ProductFits SmallInside Fits32
  constructor
  · intro h hlow hhigh
    have hfits := h hlow hhigh
    omega
  · intro h hlow hhigh
    have hsmall := h hlow hhigh
    omega

/-- Without an overflow the writer computes the position. -/
theorem scaled_eq {x size : ℤ} (hsize : 0 < size) (hfits : ProductFits x size) :
    MouseEventWriter.scaled x size = scaledPosition x size := by
  unfold MouseEventWriter.scaled scaledPosition
  simp only
  split
  · rename_i hneg
    rw [max_eq_right hneg.le, min_eq_left hsize.le, Int.zero_mul, Int.zero_ediv]
  · rename_i hnonneg
    rw [max_eq_left (Int.not_lt.mp hnonneg)]
    split
    · rename_i hbeyond
      rw [min_eq_right hbeyond.le, Int.mul_ediv_cancel_left _ hsize.ne']
    · rename_i hinside
      have hle := Int.not_lt.mp hinside
      rw [min_eq_left hle, wrap32_of_fits (hfits (Int.not_lt.mp hnonneg) hle),
        Int.tdiv_eq_ediv_of_nonneg (by omega)]

/-- A sink that takes every write and keeps it. -/
def recorder : IRawEventWriter (List RawWrite) := fun device type code value writes =>
  (true, writes ++ [⟨device, ⟨type, code, value⟩⟩])

/-- The two writes that put the pointer on a point of the absolute axes. -/
def absoluteWrites (x y : ℤ) : List RawWrite :=
  [⟨.mouse, ⟨ushort evAbs, ushort absX, x⟩⟩, ⟨.mouse, ⟨ushort evAbs, ushort absY, y⟩⟩]

theorem absoluteWrites_inj {x y x' y' : ℤ} :
    absoluteWrites x y = absoluteWrites x' y' ↔ x = x' ∧ y = y' := by
  simp [absoluteWrites]

/-- What a scaled move leaves when its writes succeed: nothing for a size that is not positive. -/
theorem luaMouseMoveToScaled_recorder (keyboard : Bool) (x y width height : ℤ) :
    luaMouseMoveToScaled recorder ⟨false, keyboard, true⟩ x y width height [] =
      if toInt width ≤ 0 ∨ toInt height ≤ 0 then (.ok false, [])
      else (.ok true, absoluteWrites (MouseEventWriter.scaled (toInt x) (toInt width))
        (MouseEventWriter.scaled (toInt y) (toInt height))) := by
  unfold luaMouseMoveToScaled onMouse
  rw [dispatch_installed]
  unfold MouseEventWriter.moveToScaled
  split <;> rfl

/-- The call puts the pointer on the scaled point, and no product that it forms overflows. -/
def MovesExactly (keyboard : Bool) (x y width height : ℤ) : Prop :=
  luaMouseMoveToScaled recorder ⟨false, keyboard, true⟩ x y width height [] =
      (.ok true, absoluteWrites (scaledPosition x width) (scaledPosition y height)) ∧
    ProductFits (toInt x) (toInt width) ∧ ProductFits (toInt y) (toInt height)

/-- Narrowing to `int` keeps the size positive and does not move the coordinate, and a narrowed
coordinate inside of the screen is small enough. -/
def Scalable (x size : ℤ) : Prop :=
  0 < toInt size ∧ scaledPosition (toInt x) (toInt size) = scaledPosition x size ∧
    SmallInside (toInt x) (toInt size)

theorem toInt_of_fits {z : ℤ} (hz : Fits32 z) : toInt z = z := wrap32_of_fits hz

/-- For arguments that fit, only the bound on a coordinate inside of the screen is left. -/
theorem scalable_iff_of_fits {x size : ℤ} (hx : Fits32 x) (hsize : Fits32 size)
    (hpos : 0 < size) : Scalable x size ↔ SmallInside x size := by
  unfold Scalable
  rw [toInt_of_fits hx, toInt_of_fits hsize]
  exact ⟨fun h => h.2.2, fun h => ⟨hpos, rfl, h⟩⟩

theorem movesExactly_iff (keyboard : Bool) (x y width height : ℤ) :
    MovesExactly keyboard x y width height ↔ Scalable x width ∧ Scalable y height := by
  unfold MovesExactly Scalable
  rw [luaMouseMoveToScaled_recorder]
  constructor
  · rintro ⟨hmoved, hfitsX, hfitsY⟩
    split at hmoved
    · -- A size that narrowing leaves without a positive value makes the call answer false.
      have hanswer : (.ok false : Except String Bool) = .ok true := congrArg Prod.fst hmoved
      cases hanswer
    · rename_i hsizes
      have hwidth : 0 < toInt width := by omega
      have hheight : 0 < toInt height := by omega
      obtain ⟨hx, hy⟩ := absoluteWrites_inj.mp (congrArg Prod.snd hmoved)
      rw [scaled_eq hwidth hfitsX] at hx
      rw [scaled_eq hheight hfitsY] at hy
      exact ⟨⟨hwidth, hx, (productFits_iff _ _).mp hfitsX⟩,
        ⟨hheight, hy, (productFits_iff _ _).mp hfitsY⟩⟩
  · rintro ⟨⟨hwidth, hx, hsmallX⟩, hheight, hy, hsmallY⟩
    have hfitsX := (productFits_iff _ _).mpr hsmallX
    have hfitsY := (productFits_iff _ _).mpr hsmallY
    refine ⟨?_, hfitsX, hfitsY⟩
    rw [if_neg (by omega), scaled_eq hwidth hfitsX, scaled_eq hheight hfitsY, hx, hy]

/-- A scaled move is exact, in range and monotone exactly if both coordinates are scalable. For
arguments that fit into an `int` that is a bound on the coordinates inside of the screen. -/
theorem moveToScaled_exact_iff (keyboard : Bool) (x y width height : ℤ)
    (hwidth : 0 < width) (hheight : 0 < height) :
    (MovesExactly keyboard x y width height ↔ Scalable x width ∧ Scalable y height) ∧
      (Fits32 x → Fits32 y → Fits32 width → Fits32 height →
        (MovesExactly keyboard x y width height ↔
          SmallInside x width ∧ SmallInside y height)) ∧
      (0 ≤ scaledPosition x width ∧ scaledPosition x width ≤ 32767) ∧
      (0 ≤ scaledPosition y height ∧ scaledPosition y height ≤ 32767) ∧
      (∀ x₁ x₂, x₁ ≤ x₂ → scaledPosition x₁ width ≤ scaledPosition x₂ width) ∧
      ∀ y₁ y₂, y₁ ≤ y₂ → scaledPosition y₁ height ≤ scaledPosition y₂ height := by
  refine ⟨movesExactly_iff keyboard x y width height, fun hx hy hw hh => ?_,
    scaledPosition_mem hwidth x, scaledPosition_mem hheight y,
    fun _ _ hle => scaledPosition_le hwidth hle, fun _ _ hle => scaledPosition_le hheight hle⟩
  rw [movesExactly_iff, scalable_iff_of_fits hx hw hwidth, scalable_iff_of_fits hy hh hheight]

theorem moveToScaled_exact_iff_center :
    (MovesExactly true 960 540 1920 1080 ↔ Scalable 960 1920 ∧ Scalable 540 1080) ∧
      SmallInside 960 1920 ∧ SmallInside 540 1080 ∧ MovesExactly true 960 540 1920 1080 := by
  have hexact := moveToScaled_exact_iff true 960 540 1920 1080 (by decide) (by decide)
  have hsmall : SmallInside 960 1920 ∧ SmallInside 540 1080 := by decide
  exact ⟨hexact.1, hsmall.1, hsmall.2,
    (hexact.2.1 (by decide) (by decide) (by decide) (by decide)).mpr hsmall⟩

/-- On a wide screen the product overflows and the pointer is put left of the axis. A size that
narrowing makes zero refuses the move. -/
theorem moveToScaled_overflows :
    ¬ MovesExactly true 70000 0 100000 100 ∧
      luaMouseMoveToScaled recorder ⟨false, true, true⟩ 70000 0 100000 100 [] =
        (.ok true, absoluteWrites (-20012) 0) ∧
      scaledPosition 70000 100000 = 22936 ∧
      luaMouseMoveToScaled recorder ⟨false, true, true⟩ 0 0 4294967296 100 [] =
        (.ok false, []) := by
  refine ⟨?_, by decide, by decide, by decide⟩
  intro hexact
  exact absurd hexact.2.1 (by decide)

end Evrp
