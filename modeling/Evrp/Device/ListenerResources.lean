import Mathlib.Data.List.Induction
import Mathlib.Data.List.Nodup
import Evrp.Lib.Machine
import Evrp.Device.LocalInputListener

/-!
# The descriptors of the listener

The calls of the listener come one at a time and leave a trace of the
descriptors they have opened and closed; a table replays the trace and refuses
to open a descriptor that is open or to close one that is not. After every
sequence of calls the trace is accepted and leaves exactly the descriptors of
the tracked devices open.
-/

namespace Evrp

namespace LocalInputListener

/-- A call of the listener, with what the system answers to it. -/
inductive Call where
  | startListening (answers : Answers) (recording : ℕ) (kinds : List DeviceKind)
  | waitForInputEvent (answers : Answers) (timeoutMs : ℤ)
  | readInputEvents (answers : Answers)
  | cancelListening
  | dispose

/-- The listener after a call. -/
def State.call (s : State) : Call → State
  | .startListening answers recording kinds => (startListening answers recording kinds s).1
  | .waitForInputEvent answers timeoutMs => (waitForInputEvent answers timeoutMs s).1
  | .readInputEvents answers => (readInputEvents answers s).1
  | .cancelListening => cancelListening s
  | .dispose => dispose s

/-- The descriptors that are open. -/
def FdCall.apply (table : List ℕ) : FdCall → Option (List ℕ)
  | .opened fd => if fd ∈ table then none else some (table ++ [fd])
  | .closed fd => if fd ∈ table then some (table.erase fd) else none

/-- Replay a trace from an empty table. -/
def replay (trace : List FdCall) : Option (List ℕ) := Machine.run FdCall.apply [] trace

/-- The listener after a sequence of calls. -/
def after (calls : List Call) : State := calls.foldl State.call initial

/-- The tracked devices are what the listener holds. -/
structure State.Accounted (s : State) : Prop where
  listening : s.listeningActive = true ↔ s.devices ≠ []
  bounded : s.devices.length ≤ 32
  paths : (s.devices.map TrackedDevice.path).Nodup
  kinds : ∀ d ∈ s.devices, d.kind ≠ .unspecified
  ready : ∀ i ∈ s.pollReadyIndices, i < s.devices.length
  balance : replay s.fdCalls = some (s.devices.map TrackedDevice.fd)
  files : ∀ fd, (s.files fd).isSome = true ↔ fd ∈ s.devices.map TrackedDevice.fd
  disposed : s.disposed = true → s.devices = []

theorem replay_append {trace : List FdCall} {table : List ℕ} (h : replay trace = some table)
    (more : List FdCall) :
    replay (trace ++ more) = Machine.run FdCall.apply table more := by
  rw [replay, Machine.run_append, show Machine.run FdCall.apply [] trace = some table from h,
    Option.bind_some]

/-- Descriptors that are new and distinct are opened. -/
theorem run_opened {table fds : List ℕ} (h : (table ++ fds).Nodup) :
    Machine.run FdCall.apply table (fds.map .opened) = some (table ++ fds) := by
  induction fds generalizing table with
  | nil => rw [List.append_nil]; rfl
  | cons fd fds ih =>
    have hnew : fd ∉ table := fun hmem =>
      (List.nodup_append.mp h).2.2 fd hmem fd List.mem_cons_self rfl
    rw [List.map_cons, Machine.run_cons, FdCall.apply, if_neg hnew, Option.bind_some, ih]
    · rw [List.append_assoc]
      rfl
    · rw [List.append_assoc]
      exact h

/-- All open descriptors are closed, each once. -/
theorem run_closed (fds : List ℕ) :
    Machine.run FdCall.apply fds (fds.map .closed) = some [] := by
  induction fds with
  | nil => rfl
  | cons fd fds ih =>
    rw [List.map_cons, Machine.run_cons, FdCall.apply, if_pos List.mem_cons_self,
      Option.bind_some, List.erase_cons_head, ih]

/-- No descriptor is open twice. -/
theorem nodup_of_replay {trace : List FdCall} {table : List ℕ} (h : replay trace = some table) :
    table.Nodup := by
  refine Machine.invariant_run FdCall.apply (I := List.Nodup) ?_ List.nodup_nil h
  intro before c after hbefore hstep
  cases c with
  | opened fd =>
    rw [FdCall.apply] at hstep
    split at hstep
    · cases hstep
    · rename_i hnew
      obtain rfl := Option.some.inj hstep
      rw [← List.concat_eq_append]
      exact List.Nodup.concat hnew hbefore
  | closed fd =>
    rw [FdCall.apply] at hstep
    split at hstep
    · obtain rfl := Option.some.inj hstep
      exact hbefore.erase fd
    · cases hstep

/-- What the opening loop has opened behind a trace, starting without open descriptors. -/
structure Opening.Accounted (trace : List FdCall) (o : Opening) : Prop where
  bounded : o.newDevices.length ≤ 32
  seen : ∀ d ∈ o.newDevices, d.path ∈ o.openedPaths
  paths : (o.newDevices.map TrackedDevice.path).Nodup
  kinds : ∀ d ∈ o.newDevices, d.kind ≠ .unspecified
  fds : (o.newDevices.map TrackedDevice.fd).Nodup
  fdCalls : o.fdCalls = trace ++ (o.newDevices.map TrackedDevice.fd).map .opened
  files : ∀ fd, (o.files fd).isSome = true ↔ fd ∈ o.newDevices.map TrackedDevice.fd
  fresh : ∀ fd f, o.files fd = some f → f.arrived = [] ∧ f.consumed = 0

/-- Without devices no descriptor is open. -/
theorem eq_none_of_closed {files : ℕ → Option OpenFile}
    (h : ∀ fd, (files fd).isSome = true ↔ fd ∈ ([] : List TrackedDevice).map TrackedDevice.fd) :
    files = fun _ => none := by
  funext fd
  refine Option.not_isSome_iff_eq_none.mp fun hsome => ?_
  exact absurd ((h fd).mp hsome) List.not_mem_nil

/-- Looking a descriptor up after one of them was replaced. -/
theorem update_eq_some {files : ℕ → Option OpenFile} {fd fd' : ℕ} {f g : OpenFile}
    (h : Function.update files fd (some f) fd' = some g) :
    (fd' = fd ∧ g = f) ∨ (fd' ≠ fd ∧ files fd' = some g) := by
  by_cases heq : fd' = fd
  · subst heq
    rw [Function.update_self] at h
    exact Or.inl ⟨rfl, (Option.some.inj h).symm⟩
  · rw [Function.update_of_ne heq] at h
    exact Or.inr ⟨heq, h⟩

namespace Opening.Accounted

variable {trace : List FdCall} {o : Opening} (h : o.Accounted trace) (path : String)
include h

theorem seen_cons : ∀ d ∈ o.newDevices, d.path ∈ path :: o.openedPaths :=
  fun d hd => List.mem_cons_of_mem path (h.seen d hd)

/-- A node that is not opened is only remembered. -/
theorem remember : Opening.Accounted trace { o with openedPaths := path :: o.openedPaths } :=
  ⟨h.bounded, h.seen_cons path, h.paths, h.kinds, h.fds, h.fdCalls, h.files, h.fresh⟩

/-- A new node is opened on a descriptor that was closed. -/
theorem track (hroom : o.newDevices.length < 32) {k : DeviceKind} (hk : k ≠ .unspecified)
    (hpath : path ∉ o.openedPaths) {fd : ℕ} (hclosed : ¬ (o.files fd).isSome = true)
    (recording : ℕ) :
    Opening.Accounted trace {
      openedPaths := path :: o.openedPaths
      newDevices := o.newDevices ++ [⟨fd, k, path⟩]
      files := Function.update o.files fd (some ⟨recording, [], 0⟩)
      fdCalls := o.fdCalls ++ [.opened fd] } where
  bounded := by
    rw [List.length_append, List.length_singleton]
    omega
  seen := List.forall_mem_append.mpr
    ⟨h.seen_cons path, List.forall_mem_singleton.mpr List.mem_cons_self⟩
  paths := by
    have hfresh : path ∉ o.newDevices.map TrackedDevice.path := by
      intro hmem
      obtain ⟨d, hd, hdpath⟩ := List.mem_map.mp hmem
      exact hpath (hdpath ▸ h.seen d hd)
    rw [List.map_append, List.map_singleton, ← List.concat_eq_append]
    exact List.Nodup.concat hfresh h.paths
  kinds := List.forall_mem_append.mpr ⟨h.kinds, List.forall_mem_singleton.mpr hk⟩
  fds := by
    have hfd : fd ∉ o.newDevices.map TrackedDevice.fd := fun hmem =>
      hclosed ((h.files fd).mpr hmem)
    rw [List.map_append, List.map_singleton, ← List.concat_eq_append]
    exact List.Nodup.concat hfd h.fds
  fdCalls := by
    rw [h.fdCalls, List.map_append, List.map_append, List.append_assoc]
    rfl
  files := by
    intro fd'
    rw [List.map_append, List.mem_append]
    by_cases heq : fd' = fd
    · subst heq
      simp
    · simp only [Function.update_of_ne heq, h.files fd', List.map_cons, List.map_nil,
        List.mem_singleton, heq, or_false]
  fresh := by
    intro fd' f hf
    rcases update_eq_some hf with ⟨-, rfl⟩ | ⟨-, hf⟩
    · exact ⟨rfl, rfl⟩
    · exact h.fresh fd' f hf

end Opening.Accounted

theorem openPath_accounted (answers : Answers) (recording : ℕ) {k : DeviceKind}
    (hk : k ≠ .unspecified) {trace : List FdCall} {o : Opening} (h : o.Accounted trace)
    (path : String) : (openPath answers recording k o path).Accounted trace := by
  unfold openPath
  split
  · exact h
  · rename_i hroom
    split
    · exact h
    · rename_i hpath
      split
      · exact h.remember path
      · split
        · exact h.remember path
        · rename_i hclosed
          exact h.track path (Nat.lt_of_not_le hroom) hk hpath hclosed recording

theorem openKind_accounted (answers : Answers) (recording : ℕ) (k : DeviceKind)
    {trace : List FdCall} {o : Opening} (h : o.Accounted trace) :
    (openKind answers recording o k).Accounted trace := by
  unfold openKind
  split
  · exact h
  · rename_i hk
    generalize answers.findAllDevicePaths k = paths
    induction paths generalizing o with
    | nil => exact h
    | cons path paths ih => exact ih (openPath_accounted answers recording hk h path)

theorem openKinds_accounted (answers : Answers) (recording : ℕ) (kinds : List DeviceKind)
    {trace : List FdCall} {o : Opening} (h : o.Accounted trace) :
    (kinds.foldl (openKind answers recording) o).Accounted trace := by
  induction kinds generalizing o with
  | nil => exact h
  | cons k kinds ih => exact ih (openKind_accounted answers recording k h)

/-- Reading changes no descriptor's being open. -/
theorem isSome_readDevices (answers : Answers) (files : ℕ → Option OpenFile)
    (devices : List TrackedDevice) (fd : ℕ) :
    ((readDevices answers files devices).1 fd).isSome = (files fd).isSome := by
  induction devices generalizing files with
  | nil => rfl
  | cons d devices ih =>
    rw [readDevices, ih, readEvents]
    cases hf : files d.fd with
    | none => rfl
    | some f =>
      by_cases heq : fd = d.fd
      · subst heq
        simp only [Function.update_self, hf, Option.isSome_some]
      · simp only [Function.update_of_ne heq]

/-- Closing descriptors leaves the others as they were. -/
theorem foldl_update_none (devices : List TrackedDevice) (files : ℕ → Option OpenFile) (fd : ℕ) :
    (devices.foldl (fun (files : ℕ → Option OpenFile) d => Function.update files d.fd none)
      files) fd =
      if fd ∈ devices.map TrackedDevice.fd then none else files fd := by
  induction devices generalizing files with
  | nil => simp
  | cons d devices ih =>
    rw [List.foldl_cons, ih, List.map_cons]
    by_cases heq : fd = d.fd
    · subst heq
      simp
    · simp only [Function.update_of_ne heq, List.mem_cons, heq, false_or]

theorem mem_insertIndex {i j : ℕ} {is : List ℕ} (h : j ∈ insertIndex i is) : j = i ∨ j ∈ is := by
  induction is with
  | nil => exact Or.inl (List.mem_singleton.mp h)
  | cons k is ih =>
    unfold insertIndex at h
    split at h
    · exact List.mem_cons.mp h
    · split at h
      · exact Or.inr h
      · rcases List.mem_cons.mp h with rfl | h
        · exact Or.inr List.mem_cons_self
        · exact (ih h).imp_right (List.mem_cons_of_mem k)

theorem mem_foldl_insertIndex {ready is : List ℕ} {j : ℕ}
    (h : j ∈ ready.foldl (fun is i => insertIndex i is) is) : j ∈ ready ∨ j ∈ is := by
  induction ready generalizing is with
  | nil => exact Or.inr h
  | cons i ready ih =>
    rcases ih h with h | h
    · exact Or.inl (List.mem_cons_of_mem i h)
    · rcases mem_insertIndex h with rfl | h
      · exact Or.inl List.mem_cons_self
      · exact Or.inr h

/-- A start is refused, finds no device, or tracks the devices it has opened. -/
theorem startListening_cases (answers : Answers) (recording : ℕ) (kinds : List DeviceKind)
    (s : State) :
    startListening answers recording kinds s = (s, false) ∨
      (s.listeningActive = false ∧
        (kinds.foldl (openKind answers recording) (.start s)).newDevices = [] ∧
        startListening answers recording kinds s = ({ s with
          files := (kinds.foldl (openKind answers recording) (.start s)).files
          fdCalls := (kinds.foldl (openKind answers recording) (.start s)).fdCalls }, false)) ∨
      s.disposed = false ∧ s.listeningActive = false ∧
        (kinds.foldl (openKind answers recording) (.start s)).newDevices ≠ [] ∧
        startListening answers recording kinds s = ({ s with
          devices := (kinds.foldl (openKind answers recording) (.start s)).newDevices
          listeningActive := true
          files := (kinds.foldl (openKind answers recording) (.start s)).files
          fdCalls := (kinds.foldl (openKind answers recording) (.start s)).fdCalls }, true) := by
  unfold startListening
  cases hdisposed : s.disposed with
  | true => exact Or.inl rfl
  | false =>
    cases hactive : s.listeningActive with
    | true => exact Or.inl rfl
    | false =>
      simp only [Bool.false_eq_true, if_false]
      generalize kinds.foldl (openKind answers recording) (.start s) = o
      by_cases hnone : o.newDevices = []
      · refine Or.inr (Or.inl ⟨trivial, hnone, ?_⟩)
        rw [hnone]
        rfl
      · refine Or.inr (Or.inr ⟨trivial, trivial, hnone, ?_⟩)
        rw [List.isEmpty_eq_false_iff.mpr hnone, if_neg Bool.false_ne_true]

namespace State.Accounted

variable {s : State}

theorem devices_eq_nil (h : s.Accounted) (hidle : s.listeningActive = false) :
    s.devices = [] := by
  by_contra hne
  exact Bool.noConfusion (hidle.symm.trans (h.listening.mpr hne))

theorem files_eq_none (h : s.Accounted) (hnil : s.devices = []) :
    s.files = fun _ => none :=
  eq_none_of_closed (hnil ▸ h.files)

theorem ready_eq_nil (h : s.Accounted) (hnil : s.devices = []) :
    s.pollReadyIndices = [] := by
  refine List.eq_nil_iff_forall_not_mem.mpr fun i hi => ?_
  have hlt := h.ready i hi
  rw [hnil] at hlt
  exact Nat.not_lt_zero i hlt

/-- The opening loop of an idle listener. -/
theorem opening (h : s.Accounted) (hidle : s.listeningActive = false) (answers : Answers)
    (recording : ℕ) (kinds : List DeviceKind) :
    (kinds.foldl (openKind answers recording) (.start s)).Accounted s.fdCalls := by
  have hnil := h.devices_eq_nil hidle
  have hfiles := h.files_eq_none hnil
  refine openKinds_accounted answers recording kinds ⟨Nat.zero_le _, ?_, List.nodup_nil, ?_,
    List.nodup_nil, (List.append_nil _).symm, fun fd => ?_, fun fd f hf => ?_⟩
  · exact fun d hd => absurd hd List.not_mem_nil
  · exact fun d hd => absurd hd List.not_mem_nil
  · rw [Opening.start, hfiles]
    simp
  · rw [Opening.start, hfiles] at hf
    cases hf

/-- A start that fails changes nothing and opens nothing. -/
theorem startListening_false (h : s.Accounted) {answers : Answers} {recording : ℕ}
    {kinds : List DeviceKind} (hfail : (startListening answers recording kinds s).2 = false) :
    (startListening answers recording kinds s).1 = s := by
  rcases startListening_cases answers recording kinds s with
    hstart | ⟨hidle, hnone, hstart⟩ | ⟨-, -, -, hstart⟩
  · rw [hstart]
  · have hopening := h.opening hidle answers recording kinds
    have hclosed := eq_none_of_closed (hnone ▸ hopening.files)
    have htrace := hopening.fdCalls
    rw [hnone, List.map_nil, List.map_nil, List.append_nil] at htrace
    rw [hstart, hclosed, htrace, ← h.files_eq_none (h.devices_eq_nil hidle)]
  · rw [hstart] at hfail
    cases hfail

theorem start (h : s.Accounted) (answers : Answers) (recording : ℕ) (kinds : List DeviceKind) :
    (startListening answers recording kinds s).1.Accounted := by
  cases hstarted : (startListening answers recording kinds s).2 with
  | false =>
    rw [h.startListening_false hstarted]
    exact h
  | true =>
    rcases startListening_cases answers recording kinds s with
      hstart | ⟨-, -, hstart⟩ | ⟨halive, hidle, hsome, hstart⟩
    · rw [hstart] at hstarted
      cases hstarted
    · rw [hstart] at hstarted
      cases hstarted
    · have hopening := h.opening hidle answers recording kinds
      have hbalance := h.balance
      have hready := h.ready_eq_nil (h.devices_eq_nil hidle)
      rw [h.devices_eq_nil hidle] at hbalance
      rw [hstart]
      exact {
        listening := ⟨fun _ => hsome, fun _ => rfl⟩
        bounded := hopening.bounded
        paths := hopening.paths
        kinds := hopening.kinds
        ready := fun i hi => absurd (hready ▸ hi) List.not_mem_nil
        balance := by
          rw [hopening.fdCalls, replay_append hbalance]
          exact run_opened (by exact hopening.fds)
        files := hopening.files
        disposed := fun hdisposed => Bool.noConfusion (halive.symm.trans hdisposed) }

/-- Polling remembers positions of tracked devices only. -/
theorem wait (h : s.Accounted) (answers : Answers) (timeoutMs : ℤ) :
    (waitForInputEvent answers timeoutMs s).1.Accounted := by
  unfold waitForInputEvent
  split
  · exact h
  · split
    · exact h
    · split
      · exact h
      · simp only
        split
        · exact h
        · refine ⟨h.listening, h.bounded, h.paths, h.kinds, fun i hi => ?_, h.balance, h.files,
            h.disposed⟩
          rcases mem_foldl_insertIndex hi with hi | hi
          · have hlt := List.mem_range.mp (List.mem_filter.mp hi).1
            exact Nat.lt_of_lt_of_le hlt (Nat.min_le_left _ _)
          · exact h.ready i hi

theorem read (h : s.Accounted) (answers : Answers) :
    (readInputEvents answers s).1.Accounted := by
  unfold readInputEvents
  split
  · exact h
  · split
    · exact h
    · split
      · exact h
      · exact ⟨h.listening, h.bounded, h.paths, h.kinds,
          fun i hi => absurd hi List.not_mem_nil, h.balance,
          fun fd => by rw [isSome_readDevices]; exact h.files fd, h.disposed⟩

theorem devices_cancelListening (h : s.Accounted) :
    (LocalInputListener.cancelListening s).devices = [] := by
  unfold LocalInputListener.cancelListening
  split
  · rename_i hdisposed
    exact h.disposed hdisposed
  · rfl

/-- A cancel closes every tracked descriptor, once. -/
theorem cancel (h : s.Accounted) : (LocalInputListener.cancelListening s).Accounted := by
  unfold LocalInputListener.cancelListening
  cases hdisposed : s.disposed with
  | true =>
    have hnil := h.disposed hdisposed
    exact ⟨⟨fun hactive => Bool.noConfusion hactive, fun hne => absurd hnil hne⟩, h.bounded,
      h.paths, h.kinds, h.ready, h.balance, h.files, fun _ => hnil⟩
  | false =>
    rw [if_neg Bool.false_ne_true, closeDevices_eq]
    exact {
      listening := ⟨fun hactive => Bool.noConfusion hactive, fun hne => absurd rfl hne⟩
      bounded := Nat.zero_le _
      paths := List.nodup_nil
      kinds := fun d hd => absurd hd List.not_mem_nil
      ready := fun i hi => absurd hi List.not_mem_nil
      balance := (replay_append h.balance _).trans (run_closed _)
      files := by
        intro fd
        refine ⟨fun hsome => ?_, fun hmem => absurd hmem List.not_mem_nil⟩
        change ((s.devices.foldl (fun (files : ℕ → Option OpenFile) d =>
          Function.update files d.fd none) s.files) fd).isSome = true at hsome
        rw [foldl_update_none] at hsome
        split at hsome
        · cases hsome
        · rename_i hother
          exact absurd ((h.files fd).mp hsome) hother
      disposed := fun _ => rfl }

theorem dispose (h : s.Accounted) : (LocalInputListener.dispose s).Accounted := by
  have hcancel := h.cancel
  exact ⟨hcancel.listening, hcancel.bounded, hcancel.paths, hcancel.kinds, hcancel.ready,
    hcancel.balance, hcancel.files, fun _ => h.devices_cancelListening⟩

/-- Every call keeps the account. -/
theorem call (h : s.Accounted) (c : Call) : (s.call c).Accounted := by
  cases c with
  | startListening answers recording kinds => exact h.start answers recording kinds
  | waitForInputEvent answers timeoutMs => exact h.wait answers timeoutMs
  | readInputEvents answers => exact h.read answers
  | cancelListening => exact h.cancel
  | dispose => exact h.dispose

end State.Accounted

theorem after_concat (calls : List Call) (c : Call) :
    after (calls ++ [c]) = (after calls).call c := by
  rw [after, List.foldl_append]
  rfl

theorem accounted_after (calls : List Call) : (after calls).Accounted := by
  induction calls using List.reverseRecOn with
  | nil =>
    exact ⟨⟨fun hactive => Bool.noConfusion hactive, fun hne => absurd rfl hne⟩, Nat.zero_le _,
      List.nodup_nil, fun d hd => absurd hd List.not_mem_nil,
      fun i hi => absurd hi List.not_mem_nil, rfl,
      fun fd => ⟨fun hsome => absurd hsome Bool.false_ne_true,
        fun hmem => absurd hmem List.not_mem_nil⟩,
      fun _ => rfl⟩
  | append_singleton calls c ih =>
    rw [after_concat]
    exact ih.call c

/-- A disposed listener stays disposed and touches no descriptor. -/
theorem call_of_disposed {s : State} (hdisposed : s.disposed = true) (c : Call) :
    (s.call c).disposed = true ∧ (s.call c).fdCalls = s.fdCalls := by
  cases c with
  | startListening answers recording kinds =>
    simp only [State.call, startListening, hdisposed, if_true]
    trivial
  | waitForInputEvent answers timeoutMs =>
    simp only [State.call, waitForInputEvent, hdisposed, Bool.or_true, if_true]
    trivial
  | readInputEvents answers =>
    simp only [State.call, readInputEvents, hdisposed, if_true]
    trivial
  | cancelListening =>
    simp only [State.call, cancelListening, hdisposed, if_true]
    trivial
  | dispose =>
    simp only [State.call, dispose, cancelListening, hdisposed, if_true]
    trivial

theorem after_dispose (before later : List Call) :
    (after (before ++ .dispose :: later)).disposed = true ∧
      (after (before ++ .dispose :: later)).fdCalls =
        (after (before ++ [.dispose])).fdCalls := by
  induction later using List.reverseRecOn with
  | nil =>
    rw [after_concat]
    exact ⟨rfl, rfl⟩
  | append_singleton later c ih =>
    obtain ⟨hdisposed, htrace⟩ := ih
    obtain ⟨hstays, hnothing⟩ := call_of_disposed hdisposed c
    rw [← List.cons_append, ← List.append_assoc, after_concat]
    exact ⟨hstays, hnothing.trans htrace⟩

def isListening (s : State) : Bool := s.listeningActive

/-- What the listener holds after any sequence of calls and answers: the devices it listens to,
their descriptors and no others. A start that fails changes nothing, and after a dispose no
descriptor is opened or closed any more. -/
theorem listener_resources (calls : List Call) :
    let s := after calls
    (isListening s = true ↔ s.devices ≠ []) ∧
      (s.devices.length ≤ 32 ∧ (s.devices.map TrackedDevice.path).Nodup ∧
        ∀ d ∈ s.devices, d.kind ≠ .unspecified) ∧
      (∀ i ∈ s.pollReadyIndices, i < s.devices.length) ∧
      (replay s.fdCalls = some (s.devices.map TrackedDevice.fd) ∧
        ∀ fd, (s.files fd).isSome = true ↔ fd ∈ s.devices.map TrackedDevice.fd) ∧
      (∀ answers recording kinds, (startListening answers recording kinds s).2 = false →
        (startListening answers recording kinds s).1 = s ∧
          (startListening answers recording kinds s).1.fdCalls = s.fdCalls) ∧
      ∀ before later, calls = before ++ .dispose :: later →
        s.devices = [] ∧ s.fdCalls = (after (before ++ [.dispose])).fdCalls ∧
          ∀ c, (s.call c).fdCalls = s.fdCalls := by
  have h := accounted_after calls
  refine ⟨h.listening, ⟨h.bounded, h.paths, h.kinds⟩, h.ready, ⟨h.balance, h.files⟩,
    fun answers recording kinds hfail => ?_, ?_⟩
  · have hsame := h.startListening_false hfail
    exact ⟨hsame, congrArg State.fdCalls hsame⟩
  · rintro before later rfl
    obtain ⟨hdisposed, htrace⟩ := after_dispose before later
    exact ⟨h.disposed hdisposed, htrace, fun c => (call_of_disposed hdisposed c).2⟩

end LocalInputListener

end Evrp
