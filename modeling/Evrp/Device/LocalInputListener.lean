import Evrp.Sdk.Event
import Mathlib.Logic.Function.Basic

/-!
# The listener over the evdev nodes

A recording is a set of open descriptors. The kernel keeps for each of them the
records that arrived since it was opened, so what a recording can return is what
arrived in its own descriptors: the listener closes them all when it stops and
opens new ones when it starts. Discovery of nodes, open, poll and read answer as
they like.
-/

namespace Evrp

namespace LocalInputListener

/-- An open descriptor of the process: the recording it was opened for, the records that arrived
since, and how many of them have been read. -/
structure OpenFile where
  recording : ℕ
  arrived : List Event
  consumed : ℕ
  deriving DecidableEq, Repr

/-- The records waiting in the kernel. -/
def OpenFile.queue (f : OpenFile) : List Event := f.arrived.drop f.consumed

structure TrackedDevice where
  fd : ℕ
  kind : DeviceKind
  path : String
  deriving DecidableEq, Repr

/-- A system call on a descriptor. -/
inductive FdCall where
  | opened (fd : ℕ)
  | closed (fd : ℕ)
  deriving DecidableEq, Repr

/-- The listener together with the descriptors of its process, and with what it has opened and
closed so far. -/
structure State where
  listeningActive : Bool
  disposed : Bool
  devices : List TrackedDevice
  pollReadyIndices : List ℕ
  files : ℕ → Option OpenFile
  fdCalls : List FdCall

def initial : State := ⟨false, false, [], [], fun _ => none, []⟩

/-- What the system answers to one call of the listener: the nodes of a kind, the descriptor for
a path, which of the polled devices are readable, and how many records a read returns at most. -/
structure Answers where
  findAllDevicePaths : DeviceKind → List String
  openFd : String → Option ℕ
  ready : ℕ → Bool
  amount : ℕ → ℕ

/-- A set of positions, in ascending order. -/
def insertIndex (i : ℕ) : List ℕ → List ℕ
  | [] => [i]
  | j :: js => if i < j then i :: j :: js else if i = j then j :: js else j :: insertIndex i js

/-- The variables of the opening loop, with the descriptors of the process. -/
structure Opening where
  openedPaths : List String
  newDevices : List TrackedDevice
  files : ℕ → Option OpenFile
  fdCalls : List FdCall

/-- The loop before the first kind. -/
def Opening.start (s : State) : Opening := ⟨[], [], s.files, s.fdCalls⟩

/-- One node: at most 32 devices, and no path twice. The system never hands out a descriptor
that is open. -/
def openPath (answers : Answers) (recording : ℕ) (k : DeviceKind) (o : Opening) (path : String) :
    Opening :=
  if 32 ≤ o.newDevices.length then o
  else if path ∈ o.openedPaths then o
  else
    match answers.openFd path with
    | none => { o with openedPaths := path :: o.openedPaths }
    | some fd =>
      if (o.files fd).isSome then { o with openedPaths := path :: o.openedPaths }
      else {
        openedPaths := path :: o.openedPaths
        newDevices := o.newDevices ++ [⟨fd, k, path⟩]
        files := Function.update o.files fd (some ⟨recording, [], 0⟩)
        fdCalls := o.fdCalls ++ [.opened fd] }

/-- All nodes of one kind. -/
def openKind (answers : Answers) (recording : ℕ) (o : Opening) (k : DeviceKind) : Opening :=
  if k = .unspecified then o
  else (answers.findAllDevicePaths k).foldl (openPath answers recording k) o

/-- Start listening to the nodes of some kinds, for a recording with a number of its own. -/
def startListening (answers : Answers) (recording : ℕ) (kinds : List DeviceKind) (s : State) :
    State × Bool :=
  if s.disposed then (s, false)
  else if s.listeningActive then (s, false)
  else
    let o := kinds.foldl (openKind answers recording) (.start s)
    if o.newDevices.isEmpty then ({ s with files := o.files, fdCalls := o.fdCalls }, false)
    else ({ s with
      devices := o.newDevices
      listeningActive := true
      files := o.files
      fdCalls := o.fdCalls }, true)

def State.close (s : State) (d : TrackedDevice) : State :=
  { s with
    files := Function.update s.files d.fd none
    fdCalls := s.fdCalls ++ [.closed d.fd] }

/-- Close every tracked descriptor and forget the devices. -/
def closeDevices (s : State) : State :=
  { s.devices.foldl State.close s with devices := [], pollReadyIndices := [] }

def cancelListening (s : State) : State :=
  if s.disposed then { s with listeningActive := false }
  else closeDevices { s with listeningActive := false }

def dispose (s : State) : State := { cancelListening s with disposed := true }

/-- The devices a call looks at. -/
def State.polled (s : State) : ℕ := min s.devices.length 32

/-- Poll the devices and remember which of them are readable. -/
def waitForInputEvent (answers : Answers) (timeoutMs : ℤ) (s : State) : State × Bool :=
  if !s.listeningActive || s.disposed then (s, false)
  else if timeoutMs < 0 then (s, false)
  else if s.devices.isEmpty then (s, false)
  else
    let ready := (List.range s.polled).filter answers.ready
    if ready.isEmpty then (s, false)
    else ({ s with
      pollReadyIndices := ready.foldl (fun is i => insertIndex i is) s.pollReadyIndices }, true)

/-- The records one read returned, with the device they were read from. -/
structure Batch where
  device : TrackedDevice
  recording : ℕ
  events : List Event
  deriving DecidableEq, Repr

/-- Read at most 64 whole records from one descriptor. -/
def readEvents (answers : Answers) (files : ℕ → Option OpenFile) (d : TrackedDevice) :
    (ℕ → Option OpenFile) × Batch :=
  match files d.fd with
  | none => (files, ⟨d, 0, []⟩)
  | some f =>
    let events := (f.queue.take 64).take (answers.amount d.fd)
    (Function.update files d.fd (some { f with consumed := f.consumed + events.length }),
      ⟨d, f.recording, events⟩)

/-- The reads of one call, device by device. -/
def readDevices (answers : Answers) (files : ℕ → Option OpenFile) :
    List TrackedDevice → (ℕ → Option OpenFile) × List Batch
  | [] => (files, [])
  | d :: ds =>
    let read := readEvents answers files d
    let rest := readDevices answers read.1 ds
    (rest.1, read.2 :: rest.2)

/-- Read from the devices that were readable at the last polls. -/
def readInputEvents (answers : Answers) (s : State) : State × List Batch :=
  if s.disposed then (s, [])
  else if !s.listeningActive || s.devices.isEmpty then (s, [])
  else if s.pollReadyIndices.isEmpty then (s, [])
  else
    let devices := (s.pollReadyIndices.filter (· < s.polled)).filterMap (s.devices[·]?)
    let read := readDevices answers s.files devices
    ({ s with files := read.1, pollReadyIndices := [] }, read.2)

def toApiInputEvent (device : DeviceKind) (ev : Event) : InputEvent :=
  ⟨device, ev.sec, ev.usec, ev.type, ev.code, ev.value⟩

/-- The recording whose descriptors are open. -/
def State.current (s : State) : Option ℕ :=
  s.devices.head?.bind fun d => (s.files d.fd).map (·.recording)

/-- A record arrives in every descriptor the node is open in; here in one of them. -/
def arrive (fd : ℕ) (ev : Event) (s : State) : Option State :=
  (s.files fd).map fun f =>
    { s with files := Function.update s.files fd (some { f with arrived := f.arrived ++ [ev] }) }

/-- The loop over the devices touches nothing but the descriptors. -/
theorem State.foldl_close (s : State) (devices : List TrackedDevice) :
    devices.foldl State.close s = { s with
      files := devices.foldl (fun files d => Function.update files d.fd none) s.files
      fdCalls := s.fdCalls ++ (devices.map TrackedDevice.fd).map .closed } := by
  induction devices generalizing s with
  | nil =>
    rw [List.map_nil, List.map_nil, List.append_nil]
    rfl
  | cons d devices ih =>
    rw [List.foldl_cons, ih, State.close, List.map_cons, List.map_cons, List.append_assoc,
      List.foldl_cons]
    rfl

theorem closeDevices_eq (s : State) : closeDevices s = { s with
    files := s.devices.foldl (fun files d => Function.update files d.fd none) s.files
    devices := []
    pollReadyIndices := []
    fdCalls := s.fdCalls ++ (s.devices.map TrackedDevice.fd).map .closed } := by
  rw [closeDevices, State.foldl_close]

/-! ## Descriptors belong to one recording -/

/-- Everything in the descriptors is on record as captured by their recordings. -/
def FilesCaptured (captured : List (ℕ × Event)) (files : ℕ → Option OpenFile) : Prop :=
  ∀ fd f, files fd = some f → ∀ ev ∈ f.arrived, (f.recording, ev) ∈ captured

/-- Every device is open in a descriptor of the recording. -/
def OpenedFor (recording : ℕ) (files : ℕ → Option OpenFile) (devices : List TrackedDevice) :
    Prop :=
  ∀ d ∈ devices, ∃ f, files d.fd = some f ∧ f.recording = recording

/-- The listener of a running service: alive, without devices when it does not listen, and with
all its devices opened for one recording. -/
structure State.Owned (recording : ℕ) (s : State) : Prop where
  alive : s.disposed = false
  idle : s.listeningActive = false → s.devices = []
  opened : OpenedFor recording s.files s.devices

theorem State.Owned.current_eq {n r : ℕ} {s : State} (hs : s.Owned n)
    (h : s.current = some r) : r = n ∧ s.listeningActive = true := by
  obtain ⟨d, hd, hr⟩ := Option.bind_eq_some_iff.mp h
  have hmem : d ∈ s.devices := List.mem_of_head? hd
  obtain ⟨f, hf, hrec⟩ := hs.opened d hmem
  rw [hf] at hr
  refine ⟨(Option.some.inj hr).symm.trans hrec, ?_⟩
  by_contra hidle
  rw [hs.idle (Bool.eq_false_iff.mpr hidle)] at hmem
  exact absurd hmem List.not_mem_nil

theorem owned_initial (recording : ℕ) : initial.Owned recording :=
  ⟨rfl, fun _ => rfl, nofun⟩

section

variable {captured : List (ℕ × Event)} {files : ℕ → Option OpenFile} {recording : ℕ}

/-- Replacing the content of a descriptor. -/
theorem filesCaptured_update (h : FilesCaptured captured files) (fd : ℕ) {g : OpenFile}
    (hg : ∀ ev ∈ g.arrived, (g.recording, ev) ∈ captured) :
    FilesCaptured captured (Function.update files fd (some g)) := by
  intro fd' f hf
  by_cases hfd : fd' = fd
  · subst hfd
    rw [Function.update_self] at hf
    obtain rfl := Option.some.inj hf
    exact hg
  · rw [Function.update_of_ne hfd] at hf
    exact h fd' f hf

theorem filesCaptured_close (h : FilesCaptured captured files) (fd : ℕ) :
    FilesCaptured captured (Function.update files fd none) := by
  intro fd' f hf
  by_cases hfd : fd' = fd
  · subst hfd
    rw [Function.update_self] at hf
    cases hf
  · rw [Function.update_of_ne hfd] at hf
    exact h fd' f hf

/-- An update that keeps the recording of the descriptor, or gives it the recording, keeps the
devices opened. -/
theorem openedFor_update {devices : List TrackedDevice} (h : OpenedFor recording files devices)
    (fd : ℕ) {g : OpenFile} (hg : ∀ f, files fd = some f → f.recording = recording →
      g.recording = recording) :
    OpenedFor recording (Function.update files fd (some g)) devices := by
  intro d hd
  obtain ⟨f, hf, hrec⟩ := h d hd
  by_cases hfd : d.fd = fd
  · subst hfd
    exact ⟨g, Function.update_self _ _ _, hg f hf hrec⟩
  · exact ⟨f, by rw [Function.update_of_ne hfd, hf], hrec⟩

theorem openPath_spec (answers : Answers) (k : DeviceKind) {o : Opening} (path : String)
    (hopened : OpenedFor recording o.files o.newDevices)
    (hcaptured : FilesCaptured captured o.files) :
    OpenedFor recording (openPath answers recording k o path).files
        (openPath answers recording k o path).newDevices ∧
      FilesCaptured captured (openPath answers recording k o path).files := by
  unfold openPath
  split
  · exact ⟨hopened, hcaptured⟩
  · split
    · exact ⟨hopened, hcaptured⟩
    · split
      · exact ⟨hopened, hcaptured⟩
      · rename_i fd _
        split
        · exact ⟨hopened, hcaptured⟩
        · refine ⟨fun d hd => ?_, filesCaptured_update hcaptured fd nofun⟩
          rcases List.mem_append.mp hd with hd | hd
          · exact openedFor_update hopened fd (fun _ _ _ => rfl) d hd
          · rw [List.mem_singleton.mp hd]
            exact ⟨_, Function.update_self _ _ _, rfl⟩

theorem openKind_spec (answers : Answers) {o : Opening} (k : DeviceKind)
    (hopened : OpenedFor recording o.files o.newDevices)
    (hcaptured : FilesCaptured captured o.files) :
    OpenedFor recording (openKind answers recording o k).files
        (openKind answers recording o k).newDevices ∧
      FilesCaptured captured (openKind answers recording o k).files := by
  unfold openKind
  split
  · exact ⟨hopened, hcaptured⟩
  · generalize answers.findAllDevicePaths k = paths
    induction paths generalizing o with
    | nil => exact ⟨hopened, hcaptured⟩
    | cons path paths ih =>
      obtain ⟨hopened', hcaptured'⟩ := openPath_spec answers k path hopened hcaptured
      exact ih hopened' hcaptured'

theorem openKinds_spec (answers : Answers) {o : Opening} (kinds : List DeviceKind)
    (hopened : OpenedFor recording o.files o.newDevices)
    (hcaptured : FilesCaptured captured o.files) :
    OpenedFor recording (kinds.foldl (openKind answers recording) o).files
        (kinds.foldl (openKind answers recording) o).newDevices ∧
      FilesCaptured captured (kinds.foldl (openKind answers recording) o).files := by
  induction kinds generalizing o with
  | nil => exact ⟨hopened, hcaptured⟩
  | cons k kinds ih =>
    obtain ⟨hopened', hcaptured'⟩ := openKind_spec answers k hopened hcaptured
    exact ih hopened' hcaptured'

/-- A start either opens all devices for its own recording or leaves the listener as it was. -/
theorem startListening_spec (answers : Answers) (recording : ℕ) (kinds : List DeviceKind)
    {previous : ℕ} {s : State} (hs : s.Owned previous)
    (hcaptured : FilesCaptured captured s.files) :
    let started := startListening answers recording kinds s
    (started.2 = true → started.1.Owned recording ∧ started.1.listeningActive = true) ∧
      (started.2 = false → started.1.Owned previous ∧
        started.1.listeningActive = s.listeningActive) ∧
      FilesCaptured captured started.1.files := by
  obtain ⟨hopened, hfiles⟩ := openKinds_spec answers kinds
    (show OpenedFor recording s.files (Opening.start s).newDevices from nofun) hcaptured
  simp only [startListening, hs.alive, Bool.false_eq_true, if_false]
  cases hlisten : s.listeningActive with
  | true => exact ⟨nofun, fun _ => ⟨hs, hlisten⟩, hcaptured⟩
  | false =>
    rw [if_neg Bool.false_ne_true]
    split
    · refine ⟨nofun, fun _ => ⟨⟨rfl, fun _ => hs.idle hlisten, ?_⟩, rfl⟩, hfiles⟩
      simp only [OpenedFor, hs.idle hlisten]
      exact nofun
    · exact ⟨fun _ => ⟨⟨rfl, nofun, hopened⟩, rfl⟩, nofun, hfiles⟩

/-- After a cancel nothing is open for any recording. -/
theorem cancelListening_spec {previous : ℕ} {s : State} (hs : s.Owned previous)
    (hcaptured : FilesCaptured captured s.files) :
    (cancelListening s).Owned recording ∧ (cancelListening s).listeningActive = false ∧
      FilesCaptured captured (cancelListening s).files := by
  simp only [cancelListening, hs.alive, Bool.false_eq_true, if_false]
  rw [closeDevices_eq]
  refine ⟨⟨rfl, fun _ => rfl, nofun⟩, rfl, ?_⟩
  generalize s.files = files at hcaptured
  generalize s.devices = devices
  induction devices generalizing files with
  | nil => exact hcaptured
  | cons d devices ih => exact ih _ (filesCaptured_close hcaptured d.fd)

theorem waitForInputEvent_spec (answers : Answers) (timeoutMs : ℤ) {s : State}
    (hs : s.Owned recording) (hcaptured : FilesCaptured captured s.files) :
    (waitForInputEvent answers timeoutMs s).1.Owned recording ∧
      (waitForInputEvent answers timeoutMs s).1.listeningActive = s.listeningActive ∧
      FilesCaptured captured (waitForInputEvent answers timeoutMs s).1.files := by
  unfold waitForInputEvent
  split
  · exact ⟨hs, rfl, hcaptured⟩
  · split
    · exact ⟨hs, rfl, hcaptured⟩
    · split
      · exact ⟨hs, rfl, hcaptured⟩
      · dsimp only
        split
        · exact ⟨hs, rfl, hcaptured⟩
        · exact ⟨⟨hs.alive, hs.idle, hs.opened⟩, rfl, hcaptured⟩

/-- What is read from devices of one recording was captured by it. -/
theorem readDevices_spec (answers : Answers) {opened devices : List TrackedDevice}
    (hopened : OpenedFor recording files opened) (hsub : ∀ d ∈ devices, d ∈ opened)
    (hcaptured : FilesCaptured captured files) :
    OpenedFor recording (readDevices answers files devices).1 opened ∧
      FilesCaptured captured (readDevices answers files devices).1 ∧
      ∀ b ∈ (readDevices answers files devices).2, b.device ∈ opened ∧
        b.recording = recording ∧ ∀ ev ∈ b.events, (recording, ev) ∈ captured := by
  induction devices generalizing files with
  | nil => exact ⟨hopened, hcaptured, nofun⟩
  | cons d devices ih =>
    obtain ⟨f, hf, hrec⟩ := hopened d (hsub d List.mem_cons_self)
    have hread : readEvents answers files d =
        (Function.update files d.fd (some { f with
          consumed := f.consumed + ((f.queue.take 64).take (answers.amount d.fd)).length }),
          ⟨d, f.recording, (f.queue.take 64).take (answers.amount d.fd)⟩) := by
      rw [readEvents, hf]
    obtain ⟨hopened', hcaptured', hbatches⟩ := @ih (readEvents answers files d).1
      (by rw [hread]; exact openedFor_update hopened d.fd fun _ _ _ => hrec)
      (fun d' hd' => hsub d' (List.mem_cons_of_mem d hd'))
      (by rw [hread]; exact filesCaptured_update hcaptured d.fd (hcaptured d.fd f hf))
    refine ⟨hopened', hcaptured', fun b hb => ?_⟩
    rcases List.mem_cons.mp hb with rfl | hb
    · rw [hread]
      refine ⟨hsub d List.mem_cons_self, hrec, fun ev hev => ?_⟩
      have harrived : ev ∈ f.arrived :=
        List.mem_of_mem_drop (List.mem_of_mem_take (List.mem_of_mem_take hev))
      rw [← hrec]
      exact hcaptured d.fd f hf ev harrived
    · exact hbatches b hb

theorem readInputEvents_spec (answers : Answers) {s : State} (hs : s.Owned recording)
    (hcaptured : FilesCaptured captured s.files) :
    (readInputEvents answers s).1.Owned recording ∧
      (readInputEvents answers s).1.listeningActive = s.listeningActive ∧
      FilesCaptured captured (readInputEvents answers s).1.files ∧
      ∀ b ∈ (readInputEvents answers s).2, s.listeningActive = true ∧ b.device ∈ s.devices ∧
        b.recording = recording ∧ ∀ ev ∈ b.events, (recording, ev) ∈ captured := by
  unfold readInputEvents
  split
  · exact ⟨hs, rfl, hcaptured, nofun⟩
  · split
    · exact ⟨hs, rfl, hcaptured, nofun⟩
    · rename_i hlisten
      split
      · exact ⟨hs, rfl, hcaptured, nofun⟩
      · have hactive : s.listeningActive = true := by
          simp only [Bool.or_eq_true, Bool.not_eq_true', not_or, Bool.not_eq_false] at hlisten
          exact hlisten.1
        have hsub : ∀ d ∈ (s.pollReadyIndices.filter (· < s.polled)).filterMap (s.devices[·]?),
            d ∈ s.devices := by
          intro d hd
          obtain ⟨i, -, hi⟩ := List.mem_filterMap.mp hd
          exact List.mem_of_getElem? hi
        obtain ⟨hopened, hfiles, hbatches⟩ := readDevices_spec answers hs.opened hsub hcaptured
        exact ⟨⟨hs.alive, hs.idle, hopened⟩, rfl, hfiles, fun b hb => ⟨hactive, hbatches b hb⟩⟩

/-- An arrival is on record under the recording its descriptor was opened for. -/
theorem arrive_spec {fd : ℕ} {ev : Event} {s t : State} (hs : s.Owned recording)
    (hcaptured : FilesCaptured captured s.files) (h : arrive fd ev s = some t) :
    ∃ f, s.files fd = some f ∧ t.Owned recording ∧ t.listeningActive = s.listeningActive ∧
      FilesCaptured (captured ++ [(f.recording, ev)]) t.files := by
  obtain ⟨f, hf, rfl⟩ := Option.map_eq_some_iff.mp h
  refine ⟨f, hf, ⟨hs.alive, hs.idle, ?_⟩, rfl, ?_⟩
  · apply openedFor_update hs.opened fd
    intro g hg hrec
    rw [hf] at hg
    obtain rfl := Option.some.inj hg
    exact hrec
  · apply filesCaptured_update fun fd' g hg e he =>
      List.mem_append_left _ (hcaptured fd' g hg e he)
    intro e he
    rcases List.mem_append.mp he with he | he
    · exact List.mem_append_left _ (hcaptured fd f hf e he)
    · rw [List.mem_singleton.mp he]
      exact List.mem_append_right _ (List.mem_singleton_self _)

end

end LocalInputListener

end Evrp
