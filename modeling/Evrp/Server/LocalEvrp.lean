import Mathlib.Logic.Basic
import Evrp.Lib.Machine

/-!
# Stopping a recording

Recordings run one after the other on the posted worker; requests to stop come
from other threads. A stop sets the flag of the recorder's loop and then, under
the session lock, cancels the listener that is published at that moment. A
recording clears the flag when it starts and publishes its listener later, so a
stop whose first step falls before the clearing and whose second step falls after
the publishing leaves a recording with a dead listener and no reason to end.
-/

namespace Evrp

namespace LocalEvrp

/-- Where the worker stands in `record`. The last two hold the session lock. -/
inductive RecordPc where
  | idle
  | connected
  | reset
  | recording
  | published
  | listening
  | loopGuard
  | polling
  | loopLeft
  | ending
  | unpublished
  | recordingCleared
  deriving DecidableEq, Repr

/-- The members of the object, the number of the run in progress, which names its listener,
whether that listener listens, the listeners that a stop has cancelled, and the number of stops
between their two steps. -/
structure State where
  stopRecordingRequested : Bool
  isRecording : Bool
  activeListener : Option ℕ
  run : ℕ
  pc : RecordPc
  listeningActive : Bool
  cancelled : List ℕ
  pendingStops : ℕ
  deriving DecidableEq, Repr

/-- Nothing has been recorded or stopped yet. -/
def initial : State := ⟨false, false, none, 0, .idle, false, [], 0⟩

/-- The next step of the worker, also where it fails or where the loop ends for another reason
than the flag (an interrupt, a cancelled call, a failed write); the two steps of a stop. -/
inductive Label where
  | record
  | recordFails
  | recordEnds
  | stopStore
  | stopCancel
  deriving DecidableEq, Repr

def recordStep (s : State) : Option State :=
  match s.pc with
  | .idle => some { s with run := s.run + 1, listeningActive := false, pc := .connected }
  | .connected => some { s with stopRecordingRequested := false, pc := .reset }
  | .reset => some { s with isRecording := true, pc := .recording }
  | .recording => some { s with activeListener := some s.run, pc := .published }
  | .published => some { s with listeningActive := true, pc := .listening }
  | .listening => some { s with pc := .loopGuard }
  | .loopGuard =>
    if s.stopRecordingRequested then some { s with pc := .loopLeft }
    else some { s with pc := .polling }
  | .polling => some { s with pc := .loopGuard }
  | .loopLeft => some { s with listeningActive := false, pc := .ending }
  | .ending => some { s with activeListener := none, pc := .unpublished }
  | .unpublished => some { s with isRecording := false, pc := .recordingCleared }
  | .recordingCleared => some { s with stopRecordingRequested := false, pc := .idle }

/-- The device cannot be connected, the listener not started or the output not opened. -/
def recordFails (s : State) : Option State :=
  match s.pc with
  | .idle => some s
  | .published => some { s with pc := .ending }
  | .listening => some { s with pc := .loopLeft }
  | _ => none

/-- The loop ends without the flag. -/
def recordEnds (s : State) : Option State :=
  match s.pc with
  | .loopGuard => some { s with pc := .loopLeft }
  | _ => none

def stopStore (s : State) : State :=
  { s with stopRecordingRequested := true, pendingStops := s.pendingStops + 1 }

/-- The worker holds the session lock. -/
def State.locked (s : State) : Bool := s.pc == .unpublished || s.pc == .recordingCleared

/-- The second step of a pending stop: cancel the published listener. -/
def stopCancel (s : State) : Option State :=
  if s.pendingStops = 0 ∨ s.locked then none
  else
    match s.activeListener with
    | some listener => some { s with
        listeningActive := if listener = s.run then false else s.listeningActive
        cancelled := listener :: s.cancelled
        pendingStops := s.pendingStops - 1 }
    | none => some { s with pendingStops := s.pendingStops - 1 }

def step (s : State) : Label → Option State
  | .record => recordStep s
  | .recordFails => recordFails s
  | .recordEnds => recordEnds s
  | .stopStore => some (stopStore s)
  | .stopCancel => stopCancel s

/-- The worker is inside the loop of the recorder. -/
def RecordPc.inLoop : RecordPc → Bool
  | .loopGuard | .polling => true
  | _ => false

/-- The listener of the run is published. -/
def RecordPc.hasPublished : RecordPc → Bool
  | .published | .listening | .loopGuard | .polling | .loopLeft | .ending => true
  | _ => false

/-- The run has cleared the flag at its start and not yet at its end. -/
def RecordPc.hasReset : RecordPc → Bool
  | .idle | .connected => false
  | _ => true

/-- The run polls a listener that a stop has cancelled and does not know of the stop. -/
def State.HalfStopped (s : State) : Prop :=
  s.pc.inLoop = true ∧ s.run ∈ s.cancelled ∧ s.stopRecordingRequested = false

/-- What holds in every run: only the listener of the run in progress is published, and it
cannot have been cancelled before. -/
structure State.Coherent (s : State) : Prop where
  active : ∀ listener, s.activeListener = some listener →
    listener = s.run ∧ s.pc.hasPublished = true
  cancelled_le : ∀ listener ∈ s.cancelled, listener ≤ s.run
  fresh : s.pc = .connected ∨ s.pc = .reset ∨ s.pc = .recording → s.run ∉ s.cancelled

theorem coherent_initial : initial.Coherent := ⟨nofun, nofun, fun _ => List.not_mem_nil⟩

theorem coherent_recordStep {s t : State} (hs : s.Coherent) (h : recordStep s = some t) :
    t.Coherent := by
  obtain ⟨flag, isRecording, active, run, pc, listening, cancelled, pending⟩ := s
  obtain ⟨hactive, hle, hfresh⟩ := hs
  cases pc <;> simp only [recordStep, Option.some.injEq] at h
  case idle =>
    subst h
    refine ⟨fun listener hl => (nomatch (hactive listener hl).2), ?_, ?_⟩
    · exact fun listener hl => Nat.le_succ_of_le (hle listener hl)
    · exact fun _ hmem => Nat.not_succ_le_self run (hle _ hmem)
  case connected =>
    subst h
    exact ⟨fun listener hl => (nomatch (hactive listener hl).2), hle, fun _ => hfresh (Or.inl rfl)⟩
  case reset =>
    subst h
    exact ⟨fun listener hl => (nomatch (hactive listener hl).2), hle,
      fun _ => hfresh (Or.inr (Or.inl rfl))⟩
  case recording =>
    subst h
    exact ⟨fun listener hl => ⟨(Option.some.inj hl).symm, rfl⟩, hle, by simp⟩
  case loopGuard =>
    split at h
    all_goals
      obtain rfl := Option.some.inj h
      exact ⟨fun listener hl => ⟨(hactive listener hl).1, rfl⟩, hle, by simp⟩
  case ending =>
    subst h
    exact ⟨nofun, hle, by simp⟩
  case unpublished =>
    subst h
    exact ⟨fun listener hl => (nomatch (hactive listener hl).2), hle, by simp⟩
  case recordingCleared =>
    subst h
    exact ⟨fun listener hl => (nomatch (hactive listener hl).2), hle, by simp⟩
  all_goals
    subst h
    exact ⟨fun listener hl => ⟨(hactive listener hl).1, rfl⟩, hle, by simp⟩

theorem coherent_step {s t : State} {a : Label} (hs : s.Coherent) (h : step s a = some t) :
    t.Coherent := by
  cases a with
  | record => exact coherent_recordStep hs h
  | stopStore =>
    obtain rfl := Option.some.inj h
    exact ⟨hs.active, hs.cancelled_le, hs.fresh⟩
  | recordFails =>
    obtain ⟨flag, isRecording, active, run, pc, listening, cancelled, pending⟩ := s
    cases pc <;> simp only [step, recordFails, Option.some.injEq, reduceCtorEq] at h
    case idle => exact h ▸ hs
    all_goals
      subst h
      exact ⟨fun listener hl => ⟨(hs.active listener hl).1, rfl⟩, hs.cancelled_le, by simp⟩
  | recordEnds =>
    obtain ⟨flag, isRecording, active, run, pc, listening, cancelled, pending⟩ := s
    cases pc <;> simp only [step, recordEnds, Option.some.injEq, reduceCtorEq] at h
    subst h
    exact ⟨fun listener hl => ⟨(hs.active listener hl).1, rfl⟩, hs.cancelled_le, by simp⟩
  | stopCancel =>
    simp only [step, stopCancel] at h
    split at h
    · cases h
    · split at h
      · rename_i listener hlistener
        obtain rfl := Option.some.inj h
        obtain ⟨hrun, hpublished⟩ := hs.active listener hlistener
        refine ⟨hs.active, ?_, ?_⟩
        · intro other hother
          rcases List.mem_cons.mp hother with rfl | hold
          · exact Nat.le_of_eq hrun
          · exact hs.cancelled_le other hold
        · intro hpc
          rcases hpc with hpc | hpc | hpc
          all_goals
            rw [show s.pc = _ from hpc] at hpublished
            cases hpublished
      · obtain rfl := Option.some.inj h
        exact ⟨hs.active, hs.cancelled_le, hs.fresh⟩

/-- A run starts only while no stop is between its two steps. -/
def guard (s : State) : Label → Prop
  | .record => s.pc = .connected → s.pendingStops = 0
  | _ => True

instance (s : State) : ∀ a, Decidable (guard s a)
  | .record => inferInstanceAs (Decidable (_ → _))
  | .recordFails | .recordEnds | .stopStore | .stopCancel => isTrue trivial

/-- From the start of a run to its end every stop is known to the loop. -/
structure State.Informed (s : State) : Prop where
  coherent : s.Coherent
  pending : s.pc.hasReset = true → 0 < s.pendingStops → s.stopRecordingRequested = true
  cancelled : s.pc.hasReset = true → s.run ∈ s.cancelled → s.stopRecordingRequested = true

theorem informed_initial : initial.Informed := ⟨coherent_initial, nofun, nofun⟩

theorem RecordPc.hasReset_of_inLoop {pc : RecordPc} (h : pc.inLoop = true) :
    pc.hasReset = true := by
  cases pc <;> first | rfl | cases h

theorem State.Informed.not_halfStopped {s : State} (hs : s.Informed) : ¬ s.HalfStopped := by
  rintro ⟨hloop, hcancelled, hflag⟩
  have hset := hs.cancelled (RecordPc.hasReset_of_inLoop hloop) hcancelled
  rw [hflag] at hset
  cases hset

theorem informed_recordStep {s t : State} (hs : s.Informed) (hguard : guard s .record)
    (h : recordStep s = some t) : t.Informed := by
  have hcoherent := coherent_recordStep hs.coherent h
  obtain ⟨flag, isRecording, active, run, pc, listening, cancelled, pending⟩ := s
  obtain ⟨⟨-, -, hfresh⟩, hpending, hcancelled⟩ := hs
  cases pc <;> simp only [recordStep, Option.some.injEq] at h
  case idle =>
    subst h
    exact ⟨hcoherent, nofun, nofun⟩
  case connected =>
    subst h
    refine ⟨hcoherent, fun _ hpos => ?_, fun _ hmem => ?_⟩
    · exact absurd (hguard rfl) (Nat.ne_of_gt hpos)
    · exact absurd hmem (hfresh (Or.inl rfl))
  case loopGuard =>
    split at h
    all_goals
      obtain rfl := Option.some.inj h
      exact ⟨hcoherent, fun _ => hpending rfl, fun _ => hcancelled rfl⟩
  case recordingCleared =>
    subst h
    exact ⟨hcoherent, nofun, nofun⟩
  all_goals
    subst h
    exact ⟨hcoherent, fun _ => hpending rfl, fun _ => hcancelled rfl⟩

theorem informed_step {s t : State} {a : Label} (hs : s.Informed) (hguard : guard s a)
    (h : step s a = some t) : t.Informed := by
  have hcoherent := coherent_step hs.coherent h
  cases a with
  | record => exact informed_recordStep hs hguard h
  | stopStore =>
    obtain rfl := Option.some.inj h
    exact ⟨hcoherent, fun _ _ => rfl, fun _ _ => rfl⟩
  | recordFails =>
    obtain ⟨flag, isRecording, active, run, pc, listening, cancelled, pending⟩ := s
    cases pc <;> simp only [step, recordFails, Option.some.injEq, reduceCtorEq] at h
    case idle => exact h ▸ hs
    all_goals
      subst h
      exact ⟨hcoherent, fun _ => hs.pending rfl, fun _ => hs.cancelled rfl⟩
  | recordEnds =>
    obtain ⟨flag, isRecording, active, run, pc, listening, cancelled, pending⟩ := s
    cases pc <;> simp only [step, recordEnds, Option.some.injEq, reduceCtorEq] at h
    subst h
    exact ⟨hcoherent, fun _ => hs.pending rfl, fun _ => hs.cancelled rfl⟩
  | stopCancel =>
    simp only [step, stopCancel] at h
    split at h
    · cases h
    · rename_i henabled
      have hpos : 0 < s.pendingStops := Nat.pos_of_ne_zero fun hzero => henabled (Or.inl hzero)
      split at h
      · obtain rfl := Option.some.inj h
        exact ⟨hcoherent, fun hreset _ => hs.pending hreset hpos,
          fun hreset _ => hs.pending hreset hpos⟩
      · obtain rfl := Option.some.inj h
        exact ⟨hcoherent, fun hreset _ => hs.pending hreset hpos,
          fun hreset _ => hs.pending hreset hpos⟩

/-- A stop caught between its steps by the start of a run cancels the run's listener. -/
theorem halfStopped_of_pending {s t : State} (h : step s .record = some t)
    (hpc : s.pc = .connected) (hpending : s.pendingStops ≠ 0) :
    ∃ u, Machine.run step t [.record, .record, .record, .record, .stopCancel] = some u ∧
      u.HalfStopped := by
  obtain ⟨flag, isRecording, active, run, pc, listening, cancelled, pending⟩ := s
  obtain rfl : pc = .connected := hpc
  obtain rfl := Option.some.inj h
  cases pending with
  | zero => exact absurd rfl hpending
  | succ n => exact ⟨_, rfl, rfl, List.mem_cons_self, rfl⟩

/-- No recording is half stopped if no run starts between the two steps of a stop, and a run
that does can end up so. -/
theorem not_halfStopped_of_guarded {labels : List Label} {s : State}
    (hs : Machine.run step initial labels = some s) :
    (Machine.Guarded step guard initial labels → ¬ s.HalfStopped) ∧
      ∀ a t, step s a = some t → ¬ guard s a →
        ∃ after u, Machine.run step t after = some u ∧ u.HalfStopped := by
  constructor
  · intro hguarded
    have hinformed : s.Informed :=
      Machine.invariant_guarded_run step (fun _ _ _ hs hguard h => informed_step hs hguard h)
        informed_initial hguarded hs
    exact hinformed.not_halfStopped
  · intro a t ht hguard
    cases a with
    | record =>
      obtain ⟨hpc, hpending⟩ := Classical.not_imp.mp hguard
      obtain ⟨u, hu, hhalf⟩ := halfStopped_of_pending ht hpc hpending
      exact ⟨_, u, hu, hhalf⟩
    | _ => exact absurd trivial hguard

/-- A stop whose first step falls before a run clears the flag and whose second step falls into
its loop. -/
theorem halfStopped_at_start : ∃ s,
    Machine.run step initial [.record, .stopStore, .record, .record, .record, .record, .record,
      .stopCancel] = some s ∧ s.HalfStopped ∧ s.listeningActive = false :=
  ⟨_, rfl, ⟨rfl, List.mem_cons_self, rfl⟩, rfl⟩

/-- Start a recording up to its loop and stop it there. -/
def stoppedInLoop : List Label :=
  [.record, .record, .record, .record, .record, .record, .stopStore, .stopCancel]

theorem not_halfStopped_of_guarded_stop_in_loop : ∃ s,
    Machine.run step initial stoppedInLoop = some s ∧ s.pc = .loopGuard ∧ s.run ∈ s.cancelled ∧
      ¬ s.HalfStopped := by
  refine ⟨_, rfl, rfl, List.mem_cons_self, ?_⟩
  have hs : Machine.run step initial stoppedInLoop = some _ := rfl
  exact (not_halfStopped_of_guarded hs).1 (by decide)

end LocalEvrp

end Evrp
