import Mathlib.Data.UInt
import Mathlib.Data.List.Perm.Subperm
import Evrp.Device.ListenerResources
import Evrp.Lib.Numeral
import Evrp.Lib.Text
import Evrp.Sdk.EventProto
import Evrp.Sdk.InputEventWriter
import Evrp.Sdk.SessionRegistry

/-!
# Recognising input devices

A node is recognised by its name and by the bits of its capabilities, and a node
may be recognised as more than one kind. The kinds a device reports, the nodes a
recording opens and the node playback writes to all come from the same search of
the first 32 nodes.
-/

namespace Evrp

/-! ## Capabilities of a node -/

namespace Evdev

abbrev absMtPositionX : ℕ := 53
abbrev btnLeft : ℕ := 272
abbrev btnRight : ℕ := 273
abbrev btnMiddle : ℕ := 274

abbrev evMax : ℕ := 31
abbrev keyMax : ℕ := 767
abbrev absMax : ℕ := 63
abbrev relMax : ℕ := 15

/-- The words of a bitmap. -/
def nbits (x : ℕ) : ℕ := (x - 1) / 64 + 1

/-- A bitmap as the kernel fills it in: it has the words its greatest bit asks for. -/
structure Bitmap (max : ℕ) where
  words : List UInt64
  length_eq : words.length = nbits max

/-- Bit `bit` of the array. -/
def testBit {max : ℕ} (bit : ℕ) (b : Bitmap max) : Bool :=
  b.words.getD (bit / 64) 0 &&& (1 <<< UInt64.ofNat (bit % 64)) != 0

/-- What the kernel answers about an open node; any of the questions may fail. -/
structure Node where
  name : Option String
  evbit : Option (Bitmap evMax)
  keybit : Option (Bitmap keyMax)
  absbit : Option (Bitmap absMax)
  relbit : Option (Bitmap relMax)

structure Capabilities where
  name : String
  evKey : Bool
  evAbs : Bool
  evRel : Bool
  absX : Bool
  absMtPositionX : Bool
  relX : Bool
  relY : Bool
  btnLeft : Bool
  btnRight : Bool
  btnMiddle : Bool
  btnToolFinger : Bool
  btnToolDoubletap : Bool
  btnToolTripletap : Bool
  keyEnter : Bool
  keySpace : Bool
  keyEsc : Bool
  keyA : Bool

def getCapabilities (node : Node) : Option Capabilities := do
  let name ← node.name
  let evbit ← node.evbit
  let keybit ← node.keybit
  let absbit ← node.absbit
  let relbit ← node.relbit
  some {
    name := name
    evKey := testBit Evrp.evKey evbit
    evAbs := testBit Evrp.evAbs evbit
    evRel := testBit Evrp.evRel evbit
    absX := testBit Evrp.absX absbit
    absMtPositionX := testBit Evdev.absMtPositionX absbit
    relX := testBit Evrp.relX relbit
    relY := testBit Evrp.relY relbit
    btnLeft := testBit Evdev.btnLeft keybit
    btnRight := testBit Evdev.btnRight keybit
    btnMiddle := testBit Evdev.btnMiddle keybit
    btnToolFinger := testBit Evrp.btnToolFinger keybit
    btnToolDoubletap := testBit Evrp.btnToolDoubletap keybit
    btnToolTripletap := testBit Evrp.btnToolTripletap keybit
    keyEnter := testBit Evrp.keyEnter keybit
    keySpace := testBit Evrp.keySpace keybit
    keyEsc := testBit Evrp.keyEsc keybit
    keyA := testBit Evrp.keyA keybit }

end Evdev

open Evdev (Capabilities)
open Numeral (renderNat)

/-! ## Kinds -/

/-- The name in lower case contains one of the words. -/
def nameLike (words : List String) (name : String) : Bool :=
  words.any fun word => (Text.findStr word.toList (name.toList.map Char.toLower) 0).isSome

def nameLikeMouse : String → Bool := nameLike ["mouse", "trackball", "pointer"]

def nameLikeTouchpad : String → Bool := nameLike ["touchpad", "trackpad", "synaptics", "elan"]

def nameLikeTouchscreen : String → Bool := nameLike ["touchscreen"]

def nameLikeKeyboard : String → Bool := nameLike ["keyboard", "keypad"]

def isTouchpadFromCapabilities (caps : Capabilities) : Bool :=
  let has_abs := caps.evAbs && (caps.absX || caps.absMtPositionX)
  let has_finger_tool := caps.btnToolFinger || caps.btnToolDoubletap || caps.btnToolTripletap
  has_abs && has_finger_tool && nameLikeTouchpad caps.name

def isTouchscreenFromCapabilities (caps : Capabilities) : Bool :=
  if isTouchpadFromCapabilities caps then false
  else
    let has_abs := caps.evAbs && (caps.absX || caps.absMtPositionX)
    has_abs && nameLikeTouchscreen caps.name

def isMouseFromCapabilities (caps : Capabilities) : Bool :=
  let has_rel := caps.evRel && caps.relX && caps.relY
  let has_buttons := caps.btnLeft || caps.btnRight || caps.btnMiddle
  has_rel && has_buttons && nameLikeMouse caps.name

def isKeyboardFromCapabilities (caps : Capabilities) : Bool :=
  let has_keyboard_keys := caps.keyEnter || caps.keySpace || caps.keyEsc || caps.keyA
  caps.evKey && has_keyboard_keys && nameLikeKeyboard caps.name

/-- The check that belongs to a kind. -/
def isKindFromCapabilities : DeviceKind → Capabilities → Bool
  | .touchpad => isTouchpadFromCapabilities
  | .touchscreen => isTouchscreenFromCapabilities
  | .mouse => isMouseFromCapabilities
  | .keyboard => isKeyboardFromCapabilities
  | .unspecified => fun _ => false

/-- The nodes by number; a node that cannot be opened has no answers. -/
abbrev Nodes := ℕ → Option Evdev.Node

/-- A node can be opened, answers every question and passes the check. -/
def Nodes.isKind (nodes : Nodes) (kind : DeviceKind) (i : ℕ) : Bool :=
  ((nodes i).bind Evdev.getCapabilities).any (isKindFromCapabilities kind)

def devicePath (i : ℕ) : String := "/dev/input/event" ++ String.ofList (renderNat i)

def findAllDevicePaths (nodes : Nodes) (kind : DeviceKind) : List String :=
  ((List.range 32).filter (nodes.isKind kind)).map devicePath

/-- The first of the paths; empty without one. -/
def findDevicePath (nodes : Nodes) (kind : DeviceKind) : String :=
  (findAllDevicePaths nodes kind).headD ""

/-! ## What a device reports -/

def LocalDeviceKindsProvider.kinds (nodes : Nodes) : List DeviceKind :=
  [.touchpad, .touchscreen, .mouse, .keyboard].filter fun k => findDevicePath nodes k ≠ ""

/-- The call at the device; `status` is the answer of the session check. -/
def GrpcInputDeviceService.GetCapabilities (status : GrpcStatus)
    (deviceKindsProvider : Option (List DeviceKind)) : GrpcStatus × List Int32 :=
  if status.code = .ok then
    match deviceKindsProvider with
    | none => (⟨.failedPrecondition, "device kinds provider not configured"⟩, [])
    | some kinds => (.ok, kinds.map DeviceKind.toProto)
  else (status, [])

/-- Whether the call succeeded, and the kinds it returned. -/
def RemoteInputDeviceClient.getCapabilities (reply : GrpcStatus × List Int32) :
    Bool × List DeviceKind :=
  if reply.1.code = .ok then (true, reply.2.map DeviceKind.fromProto) else (false, [])

def RemoteDeviceKindsProvider.kinds (reply : GrpcStatus × List Int32) : List DeviceKind :=
  (RemoteInputDeviceClient.getCapabilities reply).2

/-! ## The search -/

theorem toList_devicePath (i : ℕ) :
    (devicePath i).toList = "/dev/input/event".toList ++ renderNat i := by
  have hnumber : (String.ofList (renderNat i)).toList = renderNat i := String.toList_ofList
  change ("/dev/input/event" ++ String.ofList (renderNat i)).toList = _
  rw [String.toList_append, hnumber]

theorem devicePath_injective : Function.Injective devicePath := by
  intro i j h
  have hlist := congrArg String.toList h
  rw [toList_devicePath, toList_devicePath] at hlist
  have hdigits : Nat.toDigits 10 i = Nat.toDigits 10 j := List.append_cancel_left hlist
  rw [← Nat.ofDigitChars_ten_toDigits (n := i), hdigits, Nat.ofDigitChars_ten_toDigits]

theorem devicePath_ne_empty (i : ℕ) : devicePath i ≠ "" := by
  intro h
  have hlist : (devicePath i).toList = [] := h ▸ String.toList_empty
  rw [toList_devicePath] at hlist
  exact Numeral.renderNat_ne_nil i (List.append_eq_nil_iff.mp hlist).2

theorem mem_findAllDevicePaths {nodes : Nodes} {kind : DeviceKind} {path : String} :
    path ∈ findAllDevicePaths nodes kind ↔
      ∃ i, i < 32 ∧ nodes.isKind kind i = true ∧ devicePath i = path := by
  rw [findAllDevicePaths, List.mem_map]
  constructor
  · rintro ⟨i, hi, rfl⟩
    obtain ⟨hlt, hkind⟩ := List.mem_filter.mp hi
    exact ⟨i, List.mem_range.mp hlt, hkind, rfl⟩
  · rintro ⟨i, hlt, hkind, rfl⟩
    exact ⟨i, List.mem_filter.mpr ⟨List.mem_range.mpr hlt, hkind⟩, rfl⟩

/-- Some node is recognised as the kind. -/
def Nodes.present (nodes : Nodes) (kind : DeviceKind) : Bool :=
  (List.range 32).any (nodes.isKind kind)

theorem findDevicePath_ne_empty {nodes : Nodes} {kind : DeviceKind} :
    findDevicePath nodes kind ≠ "" ↔ nodes.present kind = true := by
  rw [findDevicePath, Nodes.present, List.any_eq_true]
  constructor
  · intro h
    cases hpaths : findAllDevicePaths nodes kind with
    | nil =>
      rw [hpaths] at h
      exact absurd rfl h
    | cons path paths =>
      obtain ⟨i, hlt, hkind, -⟩ := mem_findAllDevicePaths.mp (hpaths ▸ List.mem_cons_self)
      exact ⟨i, List.mem_range.mpr hlt, hkind⟩
  · rintro ⟨i, hlt, hkind⟩
    have hmem := mem_findAllDevicePaths.mpr ⟨i, List.mem_range.mp hlt, hkind, rfl⟩
    cases hpaths : findAllDevicePaths nodes kind with
    | nil => exact absurd (hpaths ▸ hmem) List.not_mem_nil
    | cons path paths =>
      obtain ⟨j, -, -, rfl⟩ := mem_findAllDevicePaths.mp (hpaths ▸ List.mem_cons_self)
      exact devicePath_ne_empty j

/-- A client with a session sees the kinds of which there is a node. -/
theorem kinds_reported (nodes : Nodes) :
    RemoteDeviceKindsProvider.kinds (GrpcInputDeviceService.GetCapabilities .ok
        (some (LocalDeviceKindsProvider.kinds nodes))) =
      [DeviceKind.touchpad, .touchscreen, .mouse, .keyboard].filter nodes.present := by
  have hsent : RemoteDeviceKindsProvider.kinds (GrpcInputDeviceService.GetCapabilities .ok
      (some (LocalDeviceKindsProvider.kinds nodes))) =
      ((LocalDeviceKindsProvider.kinds nodes).map DeviceKind.toProto).map DeviceKind.fromProto :=
    rfl
  rw [hsent, List.map_map]
  have hround : DeviceKind.fromProto ∘ DeviceKind.toProto = id :=
    funext DeviceKind.fromProto_toProto
  rw [hround, List.map_id, LocalDeviceKindsProvider.kinds]
  refine List.filter_congr fun k _ => ?_
  rw [Bool.eq_iff_iff, decide_eq_true_iff]
  exact findDevicePath_ne_empty

/-- The kind under which a node is recorded: the first of the requested ones it is recognised
as. -/
def Nodes.kindOf (nodes : Nodes) (kinds : List DeviceKind) (i : ℕ) : Option DeviceKind :=
  kinds.find? fun k => nodes.isKind k i

theorem Nodes.kindOf_cons (nodes : Nodes) (k : DeviceKind) (kinds : List DeviceKind) (i : ℕ) :
    nodes.kindOf (k :: kinds) i =
      if nodes.isKind k i = true then some k else nodes.kindOf kinds i := by
  rw [Nodes.kindOf, List.find?_cons]
  cases nodes.isKind k i <;> rfl

/-! ## The nodes a recording opens -/

namespace LocalInputListener

/-- The kinds and paths the opening loop goes through. -/
def requested (answers : Answers) (kinds : List DeviceKind) : List (DeviceKind × String) :=
  kinds.flatMap fun k =>
    if k = .unspecified then [] else (answers.findAllDevicePaths k).map (Prod.mk k)

theorem requested_cons (answers : Answers) (k : DeviceKind) (kinds : List DeviceKind) :
    requested answers (k :: kinds) =
      (if k = .unspecified then [] else (answers.findAllDevicePaths k).map (Prod.mk k)) ++
        requested answers kinds :=
  List.flatMap_cons

theorem foldl_openKind_eq (answers : Answers) (recording : ℕ) (kinds : List DeviceKind)
    (o : Opening) :
    kinds.foldl (openKind answers recording) o =
      (requested answers kinds).foldl (fun o c => openPath answers recording c.1 o c.2) o := by
  induction kinds generalizing o with
  | nil => rfl
  | cons k kinds ih =>
    rw [List.foldl_cons, ih, requested_cons, List.foldl_append]
    congr 1
    unfold openKind
    split
    · rfl
    · rw [List.foldl_map]

/-- Where the loop stands after some of its paths: it has seen these paths, and tracks those that
could be opened, under the kind they first came with. -/
structure Opening.Follows (trace : List FdCall) (answers : Answers) (paths : List String)
    (done : List (DeviceKind × String)) (o : Opening) : Prop where
  accounted : o.Accounted trace
  opened : ∀ p, p ∈ o.openedPaths ↔ p ∈ done.map Prod.snd
  known : ∀ c ∈ done, c.2 ∈ paths
  tracked : ∀ d, d ∈ o.newDevices ↔ answers.openFd d.path = some d.fd ∧
    done.find? (fun c => c.2 = d.path) = some (d.kind, d.path)

theorem find?_concat_of_mem {done : List (DeviceKind × String)} {k : DeviceKind} {p : String}
    (h : p ∈ done.map Prod.snd) (q : String) :
    (done ++ [(k, p)]).find? (fun c => c.2 = q) = done.find? fun c => c.2 = q := by
  rw [List.find?_append]
  by_cases hq : p = q
  · subst hq
    obtain ⟨c, hc, rfl⟩ := List.mem_map.mp h
    have hsome : (done.find? fun c' => decide (c'.2 = c.2)).isSome = true :=
      List.find?_isSome.mpr ⟨c, hc, decide_eq_true rfl⟩
    obtain ⟨c', hc'⟩ := Option.isSome_iff_exists.mp hsome
    rw [hc', Option.some_or]
  · rw [List.find?_cons_of_neg (by simpa using hq), List.find?_nil, Option.or_none]

theorem find?_concat_of_not_mem {done : List (DeviceKind × String)} {k : DeviceKind} {p : String}
    (h : p ∉ done.map Prod.snd) (q : String) :
    (done ++ [(k, p)]).find? (fun c => c.2 = q) =
      if p = q then some (k, p) else done.find? fun c => c.2 = q := by
  rw [List.find?_append]
  split
  · rename_i hq
    subst hq
    have hnone : (done.find? fun c => decide (c.2 = p)) = none := by
      refine List.find?_eq_none.mpr fun c hc heq => h ?_
      exact List.mem_map.mpr ⟨c, hc, of_decide_eq_true heq⟩
    rw [hnone, Option.none_or]
    exact List.find?_cons_of_pos (decide_eq_true rfl)
  · rename_i hq
    rw [List.find?_cons_of_neg (by simpa using hq), List.find?_nil, Option.or_none]

section Follows

variable {trace : List FdCall} {answers : Answers} {paths : List String}
  {done : List (DeviceKind × String)} {o : Opening} {recording : ℕ}

/-- A full list of devices has every node. -/
theorem Opening.Follows.mem_of_full (h : o.Follows trace answers paths done)
    (hpaths : paths.length ≤ 32) (hfull : 32 ≤ o.newDevices.length) {p : String}
    (hp : p ∈ paths) : p ∈ done.map Prod.snd := by
  rw [← h.opened]
  by_contra hnot
  have hnodup : (p :: o.newDevices.map TrackedDevice.path).Nodup := by
    refine List.nodup_cons.mpr ⟨fun hmem => hnot ?_, h.accounted.paths⟩
    obtain ⟨d, hd, rfl⟩ := List.mem_map.mp hmem
    exact h.accounted.seen d hd
  have hsubset : p :: o.newDevices.map TrackedDevice.path ⊆ paths := by
    intro q hq
    rcases List.mem_cons.mp hq with rfl | hq
    · exact hp
    · obtain ⟨d, hd, rfl⟩ := List.mem_map.mp hq
      obtain ⟨c, hc, hpath⟩ := List.mem_map.mp ((h.opened _).mp (h.accounted.seen d hd))
      exact hpath ▸ h.known c hc
  have hlength := (List.Nodup.subperm hnodup hsubset).length_le
  rw [List.length_cons, List.length_map] at hlength
  omega

/-- A path that was seen before changes nothing. -/
theorem Opening.Follows.seen (h : o.Follows trace answers paths done) {k : DeviceKind} {p : String}
    (hp : p ∈ done.map Prod.snd) : o.Follows trace answers paths (done ++ [(k, p)]) := by
  refine ⟨h.accounted, fun q => ?_, fun c hc => ?_, fun d => ?_⟩
  · rw [h.opened, List.map_append, List.mem_append, List.map_singleton, List.mem_singleton]
    exact ⟨Or.inl, fun hq => hq.elim id fun heq => heq ▸ hp⟩
  · rcases List.mem_append.mp hc with hc | hc
    · exact h.known c hc
    · obtain ⟨c', hc', hpath⟩ := List.mem_map.mp hp
      rw [List.mem_singleton.mp hc, ← hpath]
      exact h.known c' hc'
  · rw [h.tracked, find?_concat_of_mem hp]

theorem Opening.Follows.openPath (h : o.Follows trace answers paths done)
    (hfresh : ∀ p q fd, answers.openFd p = some fd → answers.openFd q = some fd → p = q)
    (hpaths : paths.length ≤ 32) {k : DeviceKind} (hk : k ≠ .unspecified) {p : String}
    (hp : p ∈ paths) :
    (openPath answers recording k o p).Follows trace answers paths (done ++ [(k, p)]) := by
  have haccounted := openPath_accounted answers recording hk h.accounted p
  unfold LocalInputListener.openPath at haccounted ⊢
  by_cases hfull : 32 ≤ o.newDevices.length
  · rw [if_pos hfull]
    exact h.seen (h.mem_of_full hpaths hfull hp)
  · rw [if_neg hfull] at haccounted ⊢
    by_cases hmem : p ∈ o.openedPaths
    · rw [if_pos hmem]
      exact h.seen ((h.opened p).mp hmem)
    · rw [if_neg hmem] at haccounted ⊢
      have hnew : p ∉ done.map Prod.snd := fun hdone => hmem ((h.opened p).mpr hdone)
      have hopened : ∀ q, q ∈ p :: o.openedPaths ↔ q ∈ (done ++ [(k, p)]).map Prod.snd := by
        intro q
        rw [List.map_append, List.mem_append, List.map_singleton, List.mem_singleton,
          List.mem_cons, h.opened, or_comm]
      have hknown : ∀ c ∈ done ++ [(k, p)], c.2 ∈ paths :=
        List.forall_mem_append.mpr ⟨h.known, List.forall_mem_singleton.mpr hp⟩
      have hnone : ∀ d ∈ o.newDevices, d.path ≠ p := by
        rintro d hd rfl
        exact hmem (h.accounted.seen d hd)
      cases hfd : answers.openFd p with
      | none =>
        simp only [hfd] at haccounted ⊢
        refine ⟨haccounted, hopened, hknown, fun d => ?_⟩
        rw [find?_concat_of_not_mem hnew]
        split
        · rename_i heq
          constructor
          · exact fun hd => absurd heq.symm (hnone d hd)
          · rintro ⟨hopen, -⟩
            rw [← heq, hfd] at hopen
            cases hopen
        · exact h.tracked d
      | some fd =>
        have hclosed : ¬ (o.files fd).isSome = true := by
          intro hsome
          obtain ⟨d, hd, hdfd⟩ := List.mem_map.mp ((h.accounted.files fd).mp hsome)
          have hopen := ((h.tracked d).mp hd).1
          exact hnone d hd (hfresh d.path p fd (hdfd ▸ hopen) hfd)
        simp only [hfd, if_neg hclosed] at haccounted ⊢
        refine ⟨haccounted, hopened, hknown, fun d => ?_⟩
        rw [find?_concat_of_not_mem hnew, List.mem_append, List.mem_singleton, h.tracked d]
        split
        · rename_i heq
          constructor
          · rintro (hd | rfl)
            · exact absurd heq.symm (hnone d ((h.tracked d).mpr hd))
            · exact ⟨hfd, rfl⟩
          · rintro ⟨hopen, hkind⟩
            rw [← heq, hfd] at hopen
            obtain ⟨dfd, dkind, dpath⟩ := d
            cases hopen
            cases hkind
            exact Or.inr rfl
        · rename_i hne
          constructor
          · rintro (hd | rfl)
            · exact hd
            · exact absurd rfl hne
          · exact Or.inl

theorem follows_foldl (h : o.Follows trace answers paths done)
    (hfresh : ∀ p q fd, answers.openFd p = some fd → answers.openFd q = some fd → p = q)
    (hpaths : paths.length ≤ 32) (recording : ℕ) {more : List (DeviceKind × String)}
    (hmore : ∀ c ∈ more, c.1 ≠ .unspecified ∧ c.2 ∈ paths) :
    (more.foldl (fun o c => openPath answers recording c.1 o c.2) o).Follows trace answers paths
      (done ++ more) := by
  induction more generalizing o done with
  | nil =>
    rw [List.append_nil]
    exact h
  | cons c more ih =>
    obtain ⟨hc, hmore⟩ := List.forall_mem_cons.mp hmore
    rw [List.append_cons]
    exact ih (h.openPath hfresh hpaths hc.1 hc.2) hmore

end Follows

end LocalInputListener

section Recording

variable {nodes : Nodes} {answers : LocalInputListener.Answers}
  (hanswers : answers.findAllDevicePaths = findAllDevicePaths nodes)

include hanswers

/-- The first request of a node is for the kind it is recorded under. -/
theorem find?_requested {i : ℕ} (hi : i < 32) (kinds : List DeviceKind) :
    (LocalInputListener.requested answers kinds).find? (fun c => c.2 = devicePath i) =
      (nodes.kindOf kinds i).map fun k => (k, devicePath i) := by
  induction kinds with
  | nil => rfl
  | cons k kinds ih =>
    rw [LocalInputListener.requested_cons, List.find?_append, ih, Nodes.kindOf_cons]
    by_cases hkind : nodes.isKind k i = true
    · have hk : k ≠ .unspecified := by
        rintro rfl
        simp [Nodes.isKind, isKindFromCapabilities] at hkind
      have hfirst : ((answers.findAllDevicePaths k).map (Prod.mk k)).find?
          (fun c => c.2 = devicePath i) = some (k, devicePath i) := by
        have hmem : devicePath i ∈ answers.findAllDevicePaths k := by
          rw [hanswers]
          exact mem_findAllDevicePaths.mpr ⟨i, hi, hkind, rfl⟩
        have hsome : (((answers.findAllDevicePaths k).map (Prod.mk k)).find?
            fun c => decide (c.2 = devicePath i)).isSome = true :=
          List.find?_isSome.mpr ⟨_, List.mem_map.mpr ⟨_, hmem, rfl⟩, decide_eq_true rfl⟩
        obtain ⟨c, hc⟩ := Option.isSome_iff_exists.mp hsome
        obtain ⟨path, -, rfl⟩ := List.mem_map.mp (List.mem_of_find?_eq_some hc)
        have hpath : decide (path = devicePath i) = true := List.find?_some (a := (k, path)) hc
        rw [hc, of_decide_eq_true hpath]
      rw [if_neg hk, hfirst, if_pos hkind, Option.some_or, Option.map_some]
    · have hnone : (if k = .unspecified then []
          else (answers.findAllDevicePaths k).map (Prod.mk k)).find?
          (fun c => c.2 = devicePath i) = none := by
        split
        · rfl
        · refine List.find?_eq_none.mpr fun c hc heq => hkind ?_
          obtain ⟨path, hpath, rfl⟩ := List.mem_map.mp hc
          rw [hanswers] at hpath
          obtain ⟨j, -, hj, rfl⟩ := mem_findAllDevicePaths.mp hpath
          exact devicePath_injective (of_decide_eq_true heq) ▸ hj
      rw [hnone, Option.none_or, if_neg hkind]

theorem requested_known (kinds : List DeviceKind) :
    ∀ c ∈ LocalInputListener.requested answers kinds,
      c.1 ≠ .unspecified ∧ c.2 ∈ (List.range 32).map devicePath := by
  intro c hc
  obtain ⟨k, -, hc⟩ := List.mem_flatMap.mp hc
  split at hc
  · exact absurd hc List.not_mem_nil
  · rename_i hk
    obtain ⟨path, hpath, rfl⟩ := List.mem_map.mp hc
    rw [hanswers] at hpath
    obtain ⟨i, hi, -, rfl⟩ := mem_findAllDevicePaths.mp hpath
    exact ⟨hk, List.mem_map.mpr ⟨i, List.mem_range.mpr hi, rfl⟩⟩

/-- The devices the opening loop of an idle listener tracks. -/
theorem mem_newDevices {s : LocalInputListener.State} (hs : s.Accounted)
    (hidle : s.listeningActive = false)
    (hfresh : ∀ p q fd, answers.openFd p = some fd → answers.openFd q = some fd → p = q)
    (recording : ℕ) (kinds : List DeviceKind) (d : LocalInputListener.TrackedDevice) :
    d ∈ (kinds.foldl (LocalInputListener.openKind answers recording) (.start s)).newDevices ↔
      ∃ i, i < 32 ∧ d.path = devicePath i ∧ answers.openFd d.path = some d.fd ∧
        nodes.kindOf kinds i = some d.kind := by
  have hstart : LocalInputListener.Opening.Follows s.fdCalls answers
      ((List.range 32).map devicePath) [] (.start s) :=
    ⟨hs.opening hidle answers recording [], by simp [LocalInputListener.Opening.start], by simp,
      by simp [LocalInputListener.Opening.start]⟩
  have hfollows := LocalInputListener.follows_foldl hstart hfresh
    (by rw [List.length_map, List.length_range]) recording (requested_known hanswers kinds)
  rw [LocalInputListener.foldl_openKind_eq, hfollows.tracked, List.nil_append]
  constructor
  · rintro ⟨hopen, hfind⟩
    obtain ⟨-, hmem⟩ := requested_known hanswers kinds _ (List.mem_of_find?_eq_some hfind)
    obtain ⟨i, hi, hpath⟩ : ∃ i ∈ List.range 32, devicePath i = d.path := List.mem_map.mp hmem
    rw [← hpath, find?_requested hanswers (List.mem_range.mp hi)] at hfind
    obtain ⟨k, hk, heq⟩ := Option.map_eq_some_iff.mp hfind
    cases heq
    exact ⟨i, List.mem_range.mp hi, hpath.symm, hopen, hk⟩
  · rintro ⟨i, hi, hpath, hopen, hkind⟩
    refine ⟨hopen, ?_⟩
    rw [hpath, find?_requested hanswers hi, hkind, Option.map_some]

end Recording

/-- An idle listener tracks what the opening loop has opened, and starts if that is anything. -/
theorem startListening_idle {s : LocalInputListener.State} (hs : s.Accounted)
    (hidle : s.listeningActive = false) (hdisposed : s.disposed = false)
    (answers : LocalInputListener.Answers) (recording : ℕ) (kinds : List DeviceKind) :
    (LocalInputListener.startListening answers recording kinds s).1.devices =
        (kinds.foldl (LocalInputListener.openKind answers recording) (.start s)).newDevices ∧
      ((LocalInputListener.startListening answers recording kinds s).2 = true ↔
        (LocalInputListener.startListening answers recording kinds s).1.devices ≠ []) := by
  unfold LocalInputListener.startListening
  rw [hdisposed, hidle, if_neg Bool.false_ne_true, if_neg Bool.false_ne_true]
  generalize kinds.foldl (LocalInputListener.openKind answers recording) (.start s) = o
  have hnone := hs.devices_eq_nil hidle
  by_cases hnil : o.newDevices = []
  · simp [hnil, hnone]
  · simp [hnil]

theorem isKind_of_kindOf {nodes : Nodes} {kinds : List DeviceKind} {i : ℕ} {k : DeviceKind}
    (h : nodes.kindOf kinds i = some k) : nodes.isKind k i = true :=
  List.find?_some (p := fun k => nodes.isKind k i) h

theorem isSome_of_isKind {nodes : Nodes} {k : DeviceKind} {i : ℕ}
    (h : nodes.isKind k i = true) : (nodes i).isSome = true := by
  unfold Nodes.isKind at h
  cases hnode : nodes i with
  | none =>
    rw [hnode] at h
    cases h
  | some node => rfl

/-- Every node that is recognised is recognised as one of the kinds a device reports. -/
theorem isSome_kindOf_reported {nodes : Nodes} {i : ℕ} (hi : i < 32) {k : DeviceKind}
    (h : nodes.isKind k i = true) :
    (nodes.kindOf ([DeviceKind.touchpad, .touchscreen, .mouse, .keyboard].filter nodes.present)
      i).isSome = true := by
  refine List.find?_isSome.mpr ⟨k, List.mem_filter.mpr ⟨?_, ?_⟩, h⟩
  · cases k with
    | unspecified => simp [Nodes.isKind, isKindFromCapabilities] at h
    | _ => simp
  · exact List.any_eq_true.mpr ⟨i, List.mem_range.mpr hi, h⟩

/-- A writer finds the first writable node of a kind, whatever it has written before. -/
theorem getFd_eq_some {nodes : Nodes} {env : Devices}
    (henv : env.findAllDevicePaths = findAllDevicePaths nodes) (writes : List RawWrite)
    {kind : DeviceKind} {path : String}
    (h : (InputEventWriter.getFd env kind (InputEventWriter.after env writes)).1 = some path) :
    ∃ j, j < 32 ∧ path = devicePath j ∧ nodes.isKind kind j = true ∧
      env.openFd kind path = true ∧
      ∀ i, i < j → nodes.isKind kind i = true → env.openFd kind (devicePath i) = false := by
  rw [(InputEventWriter.getFd_spec env kind (InputEventWriter.remembers_after env writes)).1,
    Devices.fileOf] at h
  split at h
  · cases h
  · rw [henv, findAllDevicePaths, List.find?_map, List.find?_filter] at h
    obtain ⟨j, hj, rfl⟩ := Option.map_eq_some_iff.mp h
    obtain ⟨hboth, hmem, hfirst⟩ := List.find?_range_eq_some.mp hj
    obtain ⟨hkind, hopen⟩ := of_decide_eq_true hboth
    refine ⟨j, List.mem_range.mp hmem, rfl, hkind, hopen, fun i hi hk => ?_⟩
    simpa [hk] using hfirst i hi

/-- A writer that finds no node finds none later. -/
theorem getFd_eq_none {nodes : Nodes} {env : Devices}
    (henv : env.findAllDevicePaths = findAllDevicePaths nodes) (writes : List RawWrite)
    {kind : DeviceKind}
    (h : (InputEventWriter.getFd env kind (InputEventWriter.after env writes)).1 = none) :
    ∀ i, i < 32 → nodes.isKind kind i = true → env.openFd kind (devicePath i) = false := by
  intro i hi hk
  rw [(InputEventWriter.getFd_spec env kind (InputEventWriter.remembers_after env writes)).1,
    Devices.fileOf] at h
  split at h
  · rename_i hkind
    rw [hkind] at hk
    simp [Nodes.isKind, isKindFromCapabilities] at hk
  · rw [henv, List.find?_eq_none] at h
    simpa using h _ (mem_findAllDevicePaths.mpr ⟨i, hi, hk, rfl⟩)

/-- The same search decides what a device reports, what a recording opens and where playback
writes, for any nodes: an idle listener tracks exactly the nodes that can be opened and are
recognised as a requested kind, each once and under the first such kind, and the limit on the
devices cuts none of them off. The reported kinds are those of the nodes in a fixed order; if the
nodes stay, a recording of them misses no node and starts unless there is none. A writer, whatever
it has written before, has for the kind of a recorded node the descriptor of the first writable
node of that kind, and none only if none is writable. -/
theorem recognised_nodes_recorded {nodes : Nodes} {answers : LocalInputListener.Answers}
    (hanswers : answers.findAllDevicePaths = findAllDevicePaths nodes)
    (hfresh : ∀ p q fd, answers.openFd p = some fd → answers.openFd q = some fd → p = q)
    {s : LocalInputListener.State} (hs : s.Accounted) (hidle : s.listeningActive = false)
    (hdisposed : s.disposed = false) (recording : ℕ) (kinds : List DeviceKind) :
    let started := LocalInputListener.startListening answers recording kinds s
    let reported := RemoteDeviceKindsProvider.kinds (GrpcInputDeviceService.GetCapabilities .ok
      (some (LocalDeviceKindsProvider.kinds nodes)))
    (∀ d, d ∈ started.1.devices ↔ ∃ i, i < 32 ∧ d.path = devicePath i ∧
      answers.openFd d.path = some d.fd ∧ nodes.kindOf kinds i = some d.kind) ∧
    (started.1.devices.map LocalInputListener.TrackedDevice.path).Nodup ∧
    (started.2 = true ↔ ∃ i, i < 32 ∧ (answers.openFd (devicePath i)).isSome = true ∧
      (nodes.kindOf kinds i).isSome = true) ∧
    reported = [DeviceKind.touchpad, .touchscreen, .mouse, .keyboard].filter nodes.present ∧
    (kinds = reported →
      (∀ i, (nodes i).isSome = true → (answers.openFd (devicePath i)).isSome = true) →
        (started.2 = true ↔ reported ≠ []) ∧
        ∀ i k, i < 32 → nodes.isKind k i = true →
          ∃ d ∈ started.1.devices, d.path = devicePath i ∧ nodes.isKind d.kind i = true) ∧
    ∀ env : Devices, env.findAllDevicePaths = findAllDevicePaths nodes →
      ∀ writes, ∀ d ∈ started.1.devices,
        (∀ path, (InputEventWriter.getFd env d.kind (InputEventWriter.after env writes)).1 =
            some path →
          ∃ j, j < 32 ∧ path = devicePath j ∧ nodes.isKind d.kind j = true ∧
            env.openFd d.kind path = true ∧
            ∀ i, i < j → nodes.isKind d.kind i = true →
              env.openFd d.kind (devicePath i) = false) ∧
        ((InputEventWriter.getFd env d.kind (InputEventWriter.after env writes)).1 = none →
          ∀ i, i < 32 → nodes.isKind d.kind i = true →
            env.openFd d.kind (devicePath i) = false) := by
  intro started reported
  obtain ⟨hdevices, hstarted⟩ := startListening_idle hs hidle hdisposed answers recording kinds
  have hmem : ∀ d, d ∈ started.1.devices ↔ ∃ i, i < 32 ∧ d.path = devicePath i ∧
      answers.openFd d.path = some d.fd ∧ nodes.kindOf kinds i = some d.kind := by
    intro d
    rw [hdevices]
    exact mem_newDevices hanswers hs hidle hfresh recording kinds d
  have hany : started.2 = true ↔ ∃ i, i < 32 ∧ (answers.openFd (devicePath i)).isSome = true ∧
      (nodes.kindOf kinds i).isSome = true := by
    rw [hstarted]
    constructor
    · intro hne
      obtain ⟨d, hd⟩ := List.exists_mem_of_ne_nil _ hne
      obtain ⟨i, hi, hpath, hopen, hkind⟩ := (hmem d).mp hd
      exact ⟨i, hi, Option.isSome_iff_exists.mpr ⟨d.fd, hpath ▸ hopen⟩,
        Option.isSome_iff_exists.mpr ⟨d.kind, hkind⟩⟩
    · rintro ⟨i, hi, hopen, hkind⟩
      obtain ⟨fd, hfd⟩ := Option.isSome_iff_exists.mp hopen
      obtain ⟨k, hk⟩ := Option.isSome_iff_exists.mp hkind
      exact List.ne_nil_of_mem ((hmem ⟨fd, k, devicePath i⟩).mpr ⟨i, hi, rfl, hfd, hk⟩)
  have hreported : reported =
      [DeviceKind.touchpad, .touchscreen, .mouse, .keyboard].filter nodes.present :=
    kinds_reported nodes
  refine ⟨hmem, (hs.start answers recording kinds).paths, hany, hreported, ?_, ?_⟩
  · intro hkinds hstay
    have hall : ∀ i k, i < 32 → nodes.isKind k i = true →
        (answers.openFd (devicePath i)).isSome = true ∧ (nodes.kindOf kinds i).isSome = true := by
      intro i k hi hk
      rw [hkinds, hreported]
      exact ⟨hstay i (isSome_of_isKind hk), isSome_kindOf_reported hi hk⟩
    refine ⟨hany.trans ⟨?_, fun hne => ?_⟩, fun i k hi hk => ?_⟩
    · rintro ⟨i, -, -, hkind⟩ hnil
      rw [hkinds, hnil] at hkind
      cases hkind
    · obtain ⟨k, hk⟩ := List.exists_mem_of_ne_nil _ hne
      rw [hreported] at hk
      obtain ⟨i, hi, hkind⟩ := List.any_eq_true.mp (List.mem_filter.mp hk).2
      exact ⟨i, List.mem_range.mp hi, hall i k (List.mem_range.mp hi) hkind⟩
    · obtain ⟨hopen, hkind⟩ := hall i k hi hk
      obtain ⟨fd, hfd⟩ := Option.isSome_iff_exists.mp hopen
      obtain ⟨k', hk'⟩ := Option.isSome_iff_exists.mp hkind
      exact ⟨⟨fd, k', devicePath i⟩, (hmem _).mpr ⟨i, hi, rfl, hfd, hk'⟩, rfl,
        isKind_of_kindOf hk'⟩
  · intro env henv writes d _
    exact ⟨fun path => getFd_eq_some henv writes, getFd_eq_none henv writes⟩

/-- A keyboard with buttons and wheels of a mouse at node 3 and a plain keyboard at node 5. -/
def twoKeyboards : Nodes := fun i =>
  if i = 3 then some ⟨some "Mouse and Keyboard", some ⟨[6], rfl⟩,
    some ⟨[2 ^ 30, 0, 0, 0, 2 ^ 16, 0, 0, 0, 0, 0, 0, 0], rfl⟩, some ⟨[0], rfl⟩, some ⟨[3], rfl⟩⟩
  else if i = 5 then some ⟨some "AT KEYBOARD", some ⟨[2], rfl⟩,
    some ⟨[2 ^ 30, 0, 0, 0, 0, 0, 0, 0, 0, 0, 0, 0], rfl⟩, some ⟨[0], rfl⟩, some ⟨[0], rfl⟩⟩
  else none

def twoKeyboardsAnswers : LocalInputListener.Answers where
  findAllDevicePaths := findAllDevicePaths twoKeyboards
  openFd path :=
    if path = devicePath 3 then some 7 else if path = devicePath 5 then some 8 else none
  ready _ := false
  amount _ := 0

/-- The node that is both is recorded as a mouse. -/
theorem recognised_nodes_recorded_twoKeyboards :
    (LocalInputListener.startListening twoKeyboardsAnswers 1 [.mouse, .keyboard]
        LocalInputListener.initial).2 = true ∧
      ∀ d, d ∈ (LocalInputListener.startListening twoKeyboardsAnswers 1 [.mouse, .keyboard]
        LocalInputListener.initial).1.devices → d.path = devicePath 3 → d.kind = .mouse := by
  have hfresh : ∀ p q fd, twoKeyboardsAnswers.openFd p = some fd →
      twoKeyboardsAnswers.openFd q = some fd → p = q := by
    intro p q fd hp hq
    simp only [twoKeyboardsAnswers] at hp hq
    grind
  obtain ⟨hmem, -, hstarted, -⟩ :=
    @recognised_nodes_recorded twoKeyboards twoKeyboardsAnswers rfl hfresh
      LocalInputListener.initial (LocalInputListener.accounted_after []) rfl rfl 1
      [.mouse, .keyboard]
  have hkind : twoKeyboards.kindOf [.mouse, .keyboard] 3 = some .mouse := by decide +kernel
  refine ⟨hstarted.mpr ⟨3, by decide, rfl, by rw [hkind]; rfl⟩, fun d hd hpath => ?_⟩
  obtain ⟨i, -, hi, -, hk⟩ := (hmem d).mp hd
  obtain rfl := devicePath_injective (hpath.symm.trans hi)
  exact Option.some.inj (hk.symm.trans hkind)

end Evrp
