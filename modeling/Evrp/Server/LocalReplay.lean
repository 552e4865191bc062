import Evrp.Server.LocalEvrp

/-!
# Stopping a replay

Recordings and replays run one after the other on the posted worker and share
the session lock. A replay publishes the playback of its device client under
the lock and takes it back under the lock before the client is destroyed; a
stop calls the published playback with the lock held. For a replay asked for
by a call there is also a thread that watches the call and stops the replay when
it is cancelled; the replay waits for that thread before it takes its playback
back.
-/

namespace Evrp

namespace LocalReplay

open LocalEvrp (RecordPc)

/-- Where the worker stands in `replay`. -/
inductive ReplayPc where
  | idle
  | connected
  | flagged
  | published
  | playing
  | returned
  | joining
  | joined
  | unpublished
  | cleared
  | closing
  deriving DecidableEq, Repr

/-- Where the thread stands that watches the call. -/
inductive WatchPc where
  | off
  | check
  | poll
  | asleep
  | stopping
  | inStop
  | ended
  deriving DecidableEq, Repr

/-- Who holds the session lock; a stop has read the published playback. -/
inductive Holder where
  | worker
  | watch (target : Option ℕ)
  | caller (target : Option ℕ)
  deriving DecidableEq, Repr

/-- The members of the object and the locals of `replay`. A replay, its client and the playback
of that client have one number; `alive` is the client that exists, and `stopped` lists the
playbacks that were told to stop. -/
structure State where
  recorder : LocalEvrp.State
  isReplaying : Bool
  activePlayback : Option ℕ
  run : ℕ
  alive : Option ℕ
  watched : Bool
  pc : ReplayPc
  watch : WatchPc
  rpcCancelWatchDone : Bool
  lock : Option Holder
  pendingStops : ℕ
  stopped : List ℕ
  deriving DecidableEq, Repr

def initial : State :=
  ⟨LocalEvrp.initial, false, none, 0, none, false, .idle, .off, false, none, 0, []⟩

inductive Label where
  /-- A step of a recording or of a stop of a recording. -/
  | recorder (label : LocalEvrp.Label)
  /-- A replay is asked for and its client connected; by a call that can be cancelled or not. -/
  | start (watched : Bool)
  /-- The next step of the replay. -/
  | worker
  /-- The playback of the recording is over. -/
  | playbackReturns
  /-- The next step of the watching thread, with what it learns about the call. -/
  | watch (cancelled : Bool)
  | callStop
  | enterStop
  | leaveStop
  deriving DecidableEq, Repr

/-- Nobody holds the session lock. -/
def State.unlocked (s : State) : Bool := s.lock.isNone && !s.recorder.locked

/-- The label of a recording takes the session lock. -/
def takesLock (s : LocalEvrp.State) : LocalEvrp.Label → Bool
  | .record => s.pc == .recording || s.pc == .ending
  | .stopCancel => true
  | _ => false

/-- The label is a step of the worker. -/
def ofWorker : LocalEvrp.Label → Bool
  | .record | .recordFails | .recordEnds => true
  | _ => false

def recorderStep (s : State) (label : LocalEvrp.Label) : Option State :=
  if (ofWorker label = true ∧ s.pc ≠ .idle) ∨ (takesLock s.recorder label = true ∧ s.lock ≠ none)
  then none
  else (LocalEvrp.step s.recorder label).map fun recorder => { s with recorder := recorder }

def start (s : State) (watched : Bool) : Option State :=
  if s.pc = .idle ∧ s.recorder.pc = .idle then
    some { s with
      run := s.run + 1, alive := some (s.run + 1), watched := watched, pc := .connected }
  else none

def workerStep (s : State) : Option State :=
  match s.pc with
  | .connected => some { s with isReplaying := true, pc := .flagged }
  | .flagged =>
    if s.unlocked then some { s with activePlayback := some s.run, pc := .published } else none
  | .published => some { s with
      rpcCancelWatchDone := false, watch := if s.watched then .check else .off, pc := .playing }
  | .returned => some { s with rpcCancelWatchDone := true, pc := .joining }
  | .joining =>
    if s.watch = .off ∨ s.watch = .ended then some { s with watch := .off, pc := .joined } else none
  | .joined =>
    if s.unlocked then
      some { s with lock := some .worker, activePlayback := none, pc := .unpublished }
    else none
  | .unpublished => some { s with isReplaying := false, pc := .cleared }
  | .cleared => some { s with lock := none, pc := .closing }
  | .closing => some { s with alive := none, pc := .idle }
  | _ => none

def watchStep (s : State) (cancelled : Bool) : Option State :=
  match s.watch with
  | .check => some { s with watch := if s.rpcCancelWatchDone then .ended else .poll }
  | .poll => some { s with watch := if cancelled then .stopping else .asleep }
  | .asleep => some { s with watch := .check }
  | .stopping =>
    if s.unlocked then
      some { s with lock := some (.watch s.activePlayback), watch := .inStop }
    else none
  | .inStop =>
    match s.lock with
    | some (.watch target) =>
      some { s with lock := none, watch := .ended, stopped := s.stopped ++ target.toList }
    | _ => none
  | _ => none

def enterStop (s : State) : Option State :=
  if s.pendingStops ≠ 0 ∧ s.unlocked = true then
    some { s with
      lock := some (.caller s.activePlayback), pendingStops := s.pendingStops - 1 }
  else none

def leaveStop (s : State) : Option State :=
  match s.lock with
  | some (.caller target) =>
    some { s with lock := none, stopped := s.stopped ++ target.toList }
  | _ => none

def step (s : State) : Label → Option State
  | .recorder label => recorderStep s label
  | .start watched => start s watched
  | .worker => workerStep s
  | .playbackReturns => if s.pc = .playing then some { s with pc := .returned } else none
  | .watch cancelled => watchStep s cancelled
  | .callStop => some { s with pendingStops := s.pendingStops + 1 }
  | .enterStop => enterStop s
  | .leaveStop => leaveStop s

/-- The replay counts as running. -/
def ReplayPc.replays : ReplayPc → Bool
  | .idle | .connected | .cleared | .closing => false
  | _ => true

/-- The playback of the replay is published. -/
def ReplayPc.hasPublished : ReplayPc → Bool
  | .published | .playing | .returned | .joining | .joined => true
  | _ => false

/-- The thread that watches the call may run. -/
def ReplayPc.mayWatch : ReplayPc → Bool
  | .playing | .returned | .joining => true
  | _ => false

/-- The recording counts as running. -/
def recordsAt : RecordPc → Bool
  | .idle | .connected | .reset | .recordingCleared => false
  | _ => true

/-- The playback that a stop in progress is about to call. -/
def Holder.target : Holder → Option ℕ
  | .worker => none
  | .watch target => target
  | .caller target => target

/-- What holds between the threads. -/
structure Coherent (s : State) : Prop where
  exclusive : s.pc = .idle ∨ s.recorder.pc = .idle
  recording : s.recorder.isRecording = recordsAt s.recorder.pc
  replaying : s.isReplaying = s.pc.replays
  alive : s.alive = if s.pc = .idle then none else some s.run
  active : s.activePlayback = if s.pc.hasPublished then some s.run else none
  lockWorker : s.lock = some .worker ↔ s.pc = .unpublished ∨ s.pc = .cleared
  lockWatch : (∃ target, s.lock = some (.watch target)) ↔ s.watch = .inStop
  target : ∀ holder, s.lock = some holder → holder ≠ .worker → holder.target = s.activePlayback
  recorderLock : s.lock ≠ none → s.recorder.locked = false
  watching : s.watch ≠ .off → s.pc.mayWatch = true
  done : s.pc = .joining → s.rpcCancelWatchDone = true

theorem coherent_initial : Coherent initial := by
  constructor <;> simp [initial, LocalEvrp.initial, recordsAt, ReplayPc.replays,
    ReplayPc.hasPublished]

variable {s t : State}

theorem lock_of_unlocked (h : s.unlocked = true) : s.lock = none ∧ s.recorder.locked = false := by
  simpa [State.unlocked] using h

/-- The flag of a recording follows the place of the worker. -/
theorem recording_step {r r' : LocalEvrp.State} {label : LocalEvrp.Label}
    (hr : r.isRecording = recordsAt r.pc) (h : LocalEvrp.step r label = some r') :
    r'.isRecording = recordsAt r'.pc := by
  obtain ⟨flag, isRecording, active, run, pc, listening, cancelled, pending⟩ := r
  cases label with
  | record =>
    cases pc <;> simp only [LocalEvrp.step, LocalEvrp.recordStep, Option.some.injEq] at h
    case loopGuard => split at h <;> (obtain rfl := Option.some.inj h; exact hr)
    all_goals
      subst h
      first
        | exact hr
        | rfl
  | recordFails =>
    cases pc <;>
      simp only [LocalEvrp.step, LocalEvrp.recordFails, Option.some.injEq, reduceCtorEq] at h
    all_goals
      subst h
      exact hr
  | recordEnds =>
    cases pc <;>
      simp only [LocalEvrp.step, LocalEvrp.recordEnds, Option.some.injEq, reduceCtorEq] at h
    all_goals
      subst h
      exact hr
  | stopStore =>
    obtain rfl := Option.some.inj h
    exact hr
  | stopCancel =>
    simp only [LocalEvrp.step, LocalEvrp.stopCancel] at h
    split at h
    · cases h
    · split at h
      all_goals
        obtain rfl := Option.some.inj h
        exact hr

/-- Only the end of a recording takes the lock and keeps it. -/
theorem locked_step {r r' : LocalEvrp.State} {label : LocalEvrp.Label}
    (h : LocalEvrp.step r label = some r') (hr : r.locked = false) (hr' : r'.locked = true) :
    takesLock r label = true := by
  obtain ⟨flag, isRecording, active, run, pc, listening, cancelled, pending⟩ := r
  cases label with
  | record =>
    cases pc <;> simp only [LocalEvrp.step, LocalEvrp.recordStep, Option.some.injEq] at h
    case loopGuard => split at h <;> (obtain rfl := Option.some.inj h; cases hr')
    case ending => rfl
    case unpublished => cases hr
    all_goals
      subst h
      cases hr'
  | recordFails =>
    cases pc <;>
      simp only [LocalEvrp.step, LocalEvrp.recordFails, Option.some.injEq, reduceCtorEq] at h
    all_goals
      subst h
      cases hr'
  | recordEnds =>
    cases pc <;>
      simp only [LocalEvrp.step, LocalEvrp.recordEnds, Option.some.injEq, reduceCtorEq] at h
    subst h
    cases hr'
  | stopStore =>
    obtain rfl := Option.some.inj h
    exact Bool.noConfusion (hr.symm.trans hr')
  | stopCancel => rfl

/-- A recording stays where it is unless the worker moves it. -/
theorem pc_step_of_stop {r r' : LocalEvrp.State} {label : LocalEvrp.Label}
    (h : LocalEvrp.step r label = some r') (hlabel : ofWorker label = false) : r'.pc = r.pc := by
  cases label with
  | record => cases hlabel
  | recordFails => cases hlabel
  | recordEnds => cases hlabel
  | stopStore =>
    obtain rfl := Option.some.inj h
    rfl
  | stopCancel =>
    simp only [LocalEvrp.step, LocalEvrp.stopCancel] at h
    split at h
    · cases h
    · split at h
      all_goals
        obtain rfl := Option.some.inj h
        rfl

theorem coherent_recorderStep {label : LocalEvrp.Label} (hs : Coherent s)
    (h : recorderStep s label = some t) : Coherent t := by
  simp only [recorderStep] at h
  split at h
  · cases h
  · rename_i hguard
    rw [not_or] at hguard
    obtain ⟨hworker, hlock⟩ := hguard
    obtain ⟨r, hr, rfl⟩ := Option.map_eq_some_iff.mp h
    refine ⟨?_, recording_step hs.recording hr, hs.replaying, hs.alive, hs.active, hs.lockWorker,
      hs.lockWatch, hs.target, ?_, hs.watching, hs.done⟩
    · by_cases hlabel : ofWorker label = true
      · exact Or.inl (by_contra fun hpc => hworker ⟨hlabel, hpc⟩)
      · rcases hs.exclusive with hidle | hidle
        · exact Or.inl hidle
        · exact Or.inr ((pc_step_of_stop hr (Bool.eq_false_iff.mpr hlabel)).trans hidle)
    · intro hheld
      by_contra hlocked
      exact hlock ⟨locked_step hr (hs.recorderLock hheld) (by simpa using hlocked), hheld⟩

theorem coherent_workerStep (hs : Coherent s) (h : workerStep s = some t) : Coherent t := by
  obtain ⟨recorder, isReplaying, active, run, alive, watched, pc, watch, done, lock, pending,
    stopped⟩ := s
  obtain ⟨hexclusive, hrecording, hreplaying, halive, hactive, hlockWorker, hlockWatch, htarget,
    hrecorderLock, hwatching, hdone⟩ := hs
  dsimp only at hexclusive hwatching
  cases pc with
  | idle => cases h
  | playing => cases h
  | connected =>
    obtain rfl := Option.some.inj h
    exact ⟨Or.inr (hexclusive.resolve_left (by decide)), hrecording, rfl, halive, hactive,
      by simpa using hlockWorker, hlockWatch, htarget, hrecorderLock,
      fun hon => absurd (hwatching hon) (by decide), by rintro ⟨⟩⟩
  | flagged =>
    simp only [workerStep, Option.ite_none_right_eq_some] at h
    obtain ⟨hunlocked, h⟩ := h
    obtain ⟨hfree, -⟩ := lock_of_unlocked hunlocked
    obtain rfl := Option.some.inj h
    obtain rfl : lock = none := hfree
    exact ⟨Or.inr (hexclusive.resolve_left (by decide)), hrecording, hreplaying, halive, rfl,
      by simp, hlockWatch, by rintro _ ⟨⟩, hrecorderLock,
      fun hon => absurd (hwatching hon) (by decide), by rintro ⟨⟩⟩
  | published =>
    -- nobody watches yet, so no stop of the watching thread is under way
    have hoff : watch = .off := by
      by_contra hon
      exact absurd (hwatching hon) (by decide)
    subst hoff
    obtain rfl := Option.some.inj h
    refine ⟨Or.inr (hexclusive.resolve_left (by decide)), hrecording, hreplaying, halive, hactive,
      by simpa using hlockWorker, ?_, htarget, hrecorderLock, fun _ => rfl, by rintro ⟨⟩⟩
    cases watched <;> simpa using hlockWatch
  | returned =>
    obtain rfl := Option.some.inj h
    exact ⟨Or.inr (hexclusive.resolve_left (by decide)), hrecording, hreplaying, halive, hactive,
      by simpa using hlockWorker, hlockWatch, htarget, hrecorderLock, fun _ => rfl, fun _ => rfl⟩
  | joining =>
    simp only [workerStep, Option.ite_none_right_eq_some] at h
    obtain ⟨hended, h⟩ := h
    obtain rfl := Option.some.inj h
    refine ⟨Or.inr (hexclusive.resolve_left (by decide)), hrecording, hreplaying, halive, hactive,
      by simpa using hlockWorker, ?_, htarget, hrecorderLock, fun hon => absurd rfl hon,
      by rintro ⟨⟩⟩
    rcases hended with rfl | rfl <;> simpa using hlockWatch
  | joined =>
    simp only [workerStep, Option.ite_none_right_eq_some] at h
    obtain ⟨hunlocked, h⟩ := h
    obtain ⟨hfree, hrecorder⟩ := lock_of_unlocked hunlocked
    obtain rfl := Option.some.inj h
    obtain rfl : lock = none := hfree
    have hoff : watch ≠ .inStop := fun hstop => absurd (hwatching (by simp [hstop])) (by decide)
    exact ⟨Or.inr (hexclusive.resolve_left (by decide)), hrecording, hreplaying, halive, rfl,
      by simp, by simpa using hoff, fun _ hholder hne => absurd (Option.some.inj hholder).symm hne,
      fun _ => hrecorder, fun hon => absurd (hwatching hon) (by decide), by rintro ⟨⟩⟩
  | unpublished =>
    obtain rfl := Option.some.inj h
    exact ⟨Or.inr (hexclusive.resolve_left (by decide)), hrecording, rfl, halive, hactive,
      by simpa using hlockWorker, hlockWatch, htarget, hrecorderLock,
      fun hon => absurd (hwatching hon) (by decide), by rintro ⟨⟩⟩
  | cleared =>
    obtain rfl := Option.some.inj h
    have hoff : watch ≠ .inStop := fun hstop => absurd (hwatching (by simp [hstop])) (by decide)
    exact ⟨Or.inr (hexclusive.resolve_left (by decide)), hrecording, hreplaying, halive, hactive,
      by simp, by simpa using hoff, by rintro _ ⟨⟩, fun hheld => absurd rfl hheld,
      fun hon => absurd (hwatching hon) (by decide), by rintro ⟨⟩⟩
  | closing =>
    obtain rfl := Option.some.inj h
    exact ⟨Or.inl rfl, hrecording, hreplaying, rfl, hactive, by simpa using hlockWorker,
      hlockWatch, htarget, hrecorderLock, fun hon => absurd (hwatching hon) (by decide),
      by rintro ⟨⟩⟩

theorem coherent_watchStep {cancelled : Bool} (hs : Coherent s)
    (h : watchStep s cancelled = some t) : Coherent t := by
  obtain ⟨recorder, isReplaying, active, run, alive, watched, pc, watch, done, lock, pending,
    stopped⟩ := s
  obtain ⟨hexclusive, hrecording, hreplaying, halive, hactive, hlockWorker, hlockWatch, htarget,
    hrecorderLock, hwatching, hdone⟩ := hs
  cases watch with
  | off => cases h
  | ended => cases h
  | check =>
    obtain rfl := Option.some.inj h
    refine ⟨hexclusive, hrecording, hreplaying, halive, hactive, hlockWorker, ?_, htarget,
      hrecorderLock, fun _ => hwatching (by simp), hdone⟩
    cases done <;> simpa using hlockWatch
  | poll =>
    obtain rfl := Option.some.inj h
    refine ⟨hexclusive, hrecording, hreplaying, halive, hactive, hlockWorker, ?_, htarget,
      hrecorderLock, fun _ => hwatching (by simp), hdone⟩
    cases cancelled <;> simpa using hlockWatch
  | asleep =>
    obtain rfl := Option.some.inj h
    refine ⟨hexclusive, hrecording, hreplaying, halive, hactive, hlockWorker, ?_, htarget,
      hrecorderLock, fun _ => hwatching (by simp), hdone⟩
    simpa using hlockWatch
  | stopping =>
    simp only [watchStep, Option.ite_none_right_eq_some] at h
    obtain ⟨hunlocked, h⟩ := h
    obtain ⟨hfree, hrecorder⟩ := lock_of_unlocked hunlocked
    obtain rfl := Option.some.inj h
    refine ⟨hexclusive, hrecording, hreplaying, halive, hactive, ?_, by simp, ?_,
      fun _ => hrecorder, fun _ => hwatching (by simp), hdone⟩
    · rw [← hlockWorker, show lock = none from hfree]
      simp
    · rintro holder ⟨⟩ -
      rfl
  | inStop =>
    obtain ⟨target, rfl⟩ := hlockWatch.mpr rfl
    obtain rfl := Option.some.inj h
    refine ⟨hexclusive, hrecording, hreplaying, halive, hactive, ?_, by simp,
      by rintro _ ⟨⟩, fun h => absurd rfl h, fun _ => hwatching (by simp), hdone⟩
    rw [← hlockWorker]
    simp

theorem coherent_enterStop (hs : Coherent s) (h : enterStop s = some t) : Coherent t := by
  simp only [enterStop, Option.ite_none_right_eq_some] at h
  obtain ⟨⟨-, hunlocked⟩, h⟩ := h
  obtain ⟨hfree, hrecorder⟩ := lock_of_unlocked hunlocked
  obtain rfl := Option.some.inj h
  refine ⟨hs.exclusive, hs.recording, hs.replaying, hs.alive, hs.active, ?_, ?_, ?_,
    fun _ => hrecorder, hs.watching, hs.done⟩
  · rw [← hs.lockWorker, hfree]
    simp
  · rw [← hs.lockWatch, hfree]
    simp
  · rintro holder ⟨⟩ -
    rfl

theorem coherent_leaveStop (hs : Coherent s) (h : leaveStop s = some t) : Coherent t := by
  simp only [leaveStop] at h
  split at h
  · rename_i target hlock
    obtain rfl := Option.some.inj h
    refine ⟨hs.exclusive, hs.recording, hs.replaying, hs.alive, hs.active, ?_, ?_,
      by rintro _ ⟨⟩, fun h => absurd rfl h, hs.watching, hs.done⟩
    · rw [← hs.lockWorker, hlock]
      simp
    · rw [← hs.lockWatch, hlock]
      simp
  · cases h

theorem coherent_step {a : Label} (hs : Coherent s) (h : step s a = some t) : Coherent t := by
  cases a with
  | recorder label => exact coherent_recorderStep hs h
  | start watched =>
    simp only [step, start, Option.ite_none_right_eq_some] at h
    obtain ⟨⟨hidle, hrecorder⟩, h⟩ := h
    obtain rfl := Option.some.inj h
    have hwatch : s.watch = .off := by
      by_contra hne
      have := hs.watching hne
      rw [hidle] at this
      cases this
    have hlock : s.lock ≠ some .worker := by
      rw [Ne, hs.lockWorker, hidle]
      simp
    refine ⟨Or.inr hrecorder, hs.recording, ?_, rfl, ?_, by simp [hlock], hs.lockWatch, ?_,
      hs.recorderLock, fun hne => absurd hwatch hne, by simp⟩
    · rw [hs.replaying, hidle]
      rfl
    · rw [hs.active, hidle]
      rfl
    · intro holder hholder hne
      rw [hs.target holder hholder hne]
  | worker => exact coherent_workerStep hs h
  | playbackReturns =>
    simp only [step, Option.ite_none_right_eq_some] at h
    obtain ⟨hplaying, h⟩ := h
    obtain rfl := Option.some.inj h
    refine ⟨?_, hs.recording, ?_, ?_, ?_, ?_, hs.lockWatch, hs.target, hs.recorderLock,
      fun _ => rfl, by simp⟩
    · have := hs.exclusive
      rw [hplaying] at this
      exact Or.inr (this.resolve_left (by decide))
    · rw [hs.replaying, hplaying]
      rfl
    · rw [hs.alive, hplaying]
      rfl
    · rw [hs.active, hplaying]
      rfl
    · rw [hs.lockWorker, hplaying]
      simp
  | watch cancelled => exact coherent_watchStep hs h
  | callStop =>
    obtain rfl := Option.some.inj h
    exact ⟨hs.exclusive, hs.recording, hs.replaying, hs.alive, hs.active, hs.lockWorker,
      hs.lockWatch, hs.target, hs.recorderLock, hs.watching, hs.done⟩
  | enterStop => exact coherent_enterStop hs h
  | leaveStop => exact coherent_leaveStop hs h

theorem coherent_run {labels : List Label} (h : Machine.run step initial labels = some s) :
    Coherent s :=
  Machine.invariant_run step (fun _ _ _ => coherent_step) coherent_initial h

/-! ## Everything comes to an end -/

/-- The steps of calls in progress, apart from a watching thread that goes on watching and a
recording that does not hold the lock. -/
def inner (s : State) : Label → Prop
  | .recorder .record => s.recorder.locked = true
  | .worker => True
  | .watch _ => s.rpcCancelWatchDone = true ∨ s.watch = .stopping ∨ s.watch = .inStop
  | .enterStop => True
  | .leaveStop => True
  | _ => False

def ReplayPc.budget : ReplayPc → ℕ
  | .connected => 11
  | .flagged => 10
  | .published => 9
  | .playing => 7
  | .returned => 6
  | .joining => 5
  | .joined => 4
  | .unpublished => 3
  | .cleared => 2
  | .closing => 1
  | .idle => 0

def WatchPc.budget : WatchPc → ℕ
  | .poll => 3
  | .asleep | .stopping => 2
  | .check | .inStop => 1
  | .off | .ended => 0

/-- The steps left to a recording that holds the lock. -/
def lockBudget : RecordPc → ℕ
  | .unpublished => 2
  | .recordingCleared => 1
  | _ => 0

def Holder.budget : Holder → ℕ
  | .caller _ => 1
  | _ => 0

/-- The steps that the calls in progress can take at most. -/
def budget (s : State) : ℕ :=
  s.pc.budget + s.watch.budget + lockBudget s.recorder.pc + s.lock.elim 0 Holder.budget +
    2 * s.pendingStops

theorem budget_workerStep (hs : Coherent s) (h : workerStep s = some t) :
    budget t < budget s := by
  obtain ⟨recorder, isReplaying, active, run, alive, watched, pc, watch, done, lock, pending,
    stopped⟩ := s
  cases pc with
  | flagged =>
    simp only [workerStep, Option.ite_none_right_eq_some] at h
    obtain ⟨-, h⟩ := h
    obtain rfl := Option.some.inj h
    simp [budget, ReplayPc.budget]
  | published =>
    obtain rfl := Option.some.inj h
    have hoff : watch = .off := by
      by_contra hne
      cases hs.watching hne
    cases watched <;> simp [budget, ReplayPc.budget, WatchPc.budget, hoff]
  | joining =>
    simp only [workerStep, Option.ite_none_right_eq_some] at h
    obtain ⟨hended, h⟩ := h
    obtain rfl := Option.some.inj h
    rcases hended with rfl | rfl <;> simp [budget, ReplayPc.budget, WatchPc.budget]
  | joined =>
    simp only [workerStep, Option.ite_none_right_eq_some] at h
    obtain ⟨hunlocked, h⟩ := h
    obtain ⟨hfree, -⟩ := lock_of_unlocked hunlocked
    obtain rfl := Option.some.inj h
    simp only at hfree
    simp [budget, ReplayPc.budget, Holder.budget, hfree]
  | cleared =>
    obtain rfl := Option.some.inj h
    have hlock : lock = some .worker := hs.lockWorker.mpr (Or.inr rfl)
    simp [budget, ReplayPc.budget, Holder.budget, hlock]
  | idle => cases h
  | playing => cases h
  | connected =>
    obtain rfl := Option.some.inj h
    simp [budget, ReplayPc.budget]
  | returned =>
    obtain rfl := Option.some.inj h
    simp [budget, ReplayPc.budget]
  | unpublished =>
    obtain rfl := Option.some.inj h
    simp [budget, ReplayPc.budget]
  | closing =>
    obtain rfl := Option.some.inj h
    simp [budget, ReplayPc.budget]

theorem budget_watchStep {cancelled : Bool} (hs : Coherent s) (ha : inner s (.watch cancelled))
    (h : watchStep s cancelled = some t) : budget t < budget s := by
  obtain ⟨recorder, isReplaying, active, run, alive, watched, pc, watch, done, lock, pending,
    stopped⟩ := s
  cases watch with
  | off => cases h
  | ended => cases h
  | check =>
    have hdone : done = true := by simpa [inner] using ha
    obtain rfl := Option.some.inj h
    simp [budget, WatchPc.budget, hdone]
  | poll =>
    obtain rfl := Option.some.inj h
    cases cancelled <;> simp [budget, WatchPc.budget]
  | asleep =>
    obtain rfl := Option.some.inj h
    simp [budget, WatchPc.budget]
  | stopping =>
    simp only [watchStep, Option.ite_none_right_eq_some] at h
    obtain ⟨hunlocked, h⟩ := h
    obtain ⟨hfree, -⟩ := lock_of_unlocked hunlocked
    obtain rfl := Option.some.inj h
    simp only at hfree
    simp [budget, WatchPc.budget, Holder.budget, hfree]
  | inStop =>
    obtain ⟨target, htarget⟩ := hs.lockWatch.mpr rfl
    simp only at htarget
    subst htarget
    obtain rfl := Option.some.inj h
    simp [budget, WatchPc.budget, Holder.budget]

theorem budget_step {a : Label} (hs : Coherent s) (ha : inner s a) (h : step s a = some t) :
    budget t < budget s := by
  cases a with
  | recorder label =>
    cases label with
    | record =>
      obtain ⟨recorder, isReplaying, active, run, alive, watched, pc, watch, done, lock, pending,
        stopped⟩ := s
      obtain ⟨flag, isRecording, listener, number, place, listening, cancelled, stops⟩ := recorder
      simp only [step, recorderStep] at h
      split at h
      · cases h
      · obtain ⟨r, hr, rfl⟩ := Option.map_eq_some_iff.mp h
        cases place with
        | unpublished =>
          obtain rfl := Option.some.inj hr
          simp [budget, lockBudget]
        | recordingCleared =>
          obtain rfl := Option.some.inj hr
          simp [budget, lockBudget]
        | _ => cases ha
    | _ => cases ha
  | worker => exact budget_workerStep hs h
  | watch cancelled => exact budget_watchStep hs ha h
  | enterStop =>
    simp only [step, enterStop, Option.ite_none_right_eq_some] at h
    obtain ⟨⟨hpending, hunlocked⟩, h⟩ := h
    obtain ⟨hfree, -⟩ := lock_of_unlocked hunlocked
    obtain rfl := Option.some.inj h
    simp only [budget, hfree, Option.elim, Holder.budget]
    omega
  | leaveStop =>
    simp only [step, leaveStop] at h
    split at h
    · rename_i target hlock
      obtain rfl := Option.some.inj h
      simp [budget, hlock, Holder.budget]
    · cases h
  | start watched => cases ha
  | playbackReturns => cases ha
  | callStop => cases ha

/-- The calls in progress cannot go on by themselves. -/
def Settled (s : State) : Prop := ∀ a, inner s a → step s a = none

/-- Whoever holds the lock goes on. -/
theorem Settled.unlocked (hs : Settled s) (hc : Coherent s) : s.unlocked = true := by
  have hrecorder : s.recorder.locked = false := by
    by_contra hlocked
    have hlocked : s.recorder.locked = true := by simpa using hlocked
    have hrecord := hs (.recorder .record) hlocked
    simp only [LocalEvrp.State.locked, Bool.or_eq_true, beq_iff_eq] at hlocked
    rcases hlocked with hpc | hpc
    all_goals
      have hidle : s.pc = .idle := hc.exclusive.resolve_right (by rw [hpc]; decide)
      simp [step, recorderStep, takesLock, LocalEvrp.step, LocalEvrp.recordStep, hpc, hidle]
        at hrecord
  have hlock : s.lock = none := by
    cases hlock : s.lock with
    | none => rfl
    | some holder =>
      cases holder with
      | worker =>
        have hworker := hs .worker trivial
        rcases hc.lockWorker.mp hlock with hpc | hpc
        all_goals
          simp [step, workerStep, hpc] at hworker
      | watch target =>
        have hinStop := hc.lockWatch.mp ⟨target, hlock⟩
        have hwatch := hs (.watch false) (Or.inr (Or.inr hinStop))
        simp [step, watchStep, hinStop, hlock] at hwatch
      | caller target =>
        have hleave := hs .leaveStop trivial
        simp [step, leaveStop, hlock] at hleave
  simp [State.unlocked, hlock, hrecorder]

/-- What is left when nothing goes on by itself: no stop is waiting, and the replay is over or
waits for its playback. -/
theorem Settled.rest (hs : Settled s) (hc : Coherent s) :
    s.pendingStops = 0 ∧
      (s.pc = .idle ∧ s.watch = .off ∨ s.pc = .playing ∧ s.watch ≠ .stopping) := by
  have hunlocked := hs.unlocked hc
  obtain ⟨hlock, -⟩ := lock_of_unlocked hunlocked
  have hworker := hs .worker trivial
  have hstopping : s.watch ≠ .stopping := by
    intro hwatch
    have := hs (.watch false) (Or.inr (Or.inl hwatch))
    simp [step, watchStep, hwatch, hunlocked] at this
  have hinStop : s.watch ≠ .inStop := by
    intro hwatch
    obtain ⟨target, htarget⟩ := hc.lockWatch.mpr hwatch
    rw [hlock] at htarget
    cases htarget
  constructor
  · by_contra hpending
    have := hs .enterStop trivial
    simp [step, enterStop, hpending, hunlocked] at this
  · cases hpc : s.pc with
    | idle =>
      refine Or.inl ⟨rfl, ?_⟩
      by_contra hwatch
      have := hc.watching hwatch
      rw [hpc] at this
      cases this
    | playing => exact Or.inr ⟨rfl, hstopping⟩
    | joining =>
      -- The flag is set, so the watching thread ends and the replay goes on.
      have hwatch := hs (.watch false) (Or.inl (hc.done hpc))
      cases hplace : s.watch with
      | stopping => exact absurd hplace hstopping
      | inStop => exact absurd hplace hinStop
      | _ => simp [step, watchStep, workerStep, hpc, hplace] at hwatch hworker
    | _ => simp [step, workerStep, hpc, hunlocked] at hworker

/-- For every interleaving of recordings, replays, their watching threads and any number of stops:
a stop in progress calls the playback of the replay in progress, whose client exists; a recording
and a replay never run at a time; a watching thread never outlives its replay. The calls in
progress take a bounded number of steps, and come to rest only where no stop is waiting, nobody
holds the lock, and the replay is over or its playback has not returned. -/
theorem replay_stops_reach_live_client {labels : List Label}
    (h : Machine.run step initial labels = some s) :
    (∀ holder k, s.lock = some holder → holder.target = some k →
      s.alive = some k ∧ s.activePlayback = some k ∧ s.isReplaying = true) ∧
    (∀ k, s.activePlayback = some k → s.alive = some k ∧ s.isReplaying = true) ∧
    ¬ (s.recorder.isRecording = true ∧ s.isReplaying = true) ∧
    (s.watch ≠ .off → s.alive = some s.run) ∧
    (∀ more t, Machine.Guarded step inner s more → Machine.run step s more = some t →
      more.length ≤ budget s) ∧
    (∃ more t, Machine.Guarded step inner s more ∧ Machine.run step s more = some t ∧
      Settled t) ∧
    (Settled s → s.pendingStops = 0 ∧ s.unlocked = true ∧
      (s.pc = .idle ∧ s.watch = .off ∧ s.alive = none ∧ s.isReplaying = false ∨
        s.pc = .playing)) := by
  have hs := coherent_run h
  have hpublished : ∀ k, s.activePlayback = some k → s.alive = some k ∧ s.isReplaying = true := by
    intro k hk
    have hactive := hs.active
    have halive := hs.alive
    have hreplaying := hs.replaying
    rw [hk] at hactive
    cases hpc : s.pc <;> simp [hpc, ReplayPc.hasPublished, ReplayPc.replays] at *
    all_goals exact ⟨halive.trans (congrArg some hactive.symm), hreplaying⟩
  have hbudget : ∀ s a t, Coherent s → inner s a → step s a = some t →
      Coherent t ∧ budget t < budget s :=
    fun _ _ _ hs ha h => ⟨coherent_step hs h, budget_step hs ha h⟩
  refine ⟨?_, hpublished, ?_, ?_, ?_, Machine.exists_run_settled step budget hbudget hs, ?_⟩
  · intro holder k hholder hk
    have hne : holder ≠ .worker := by
      rintro rfl
      cases hk
    have hactive := (hs.target holder hholder hne).symm.trans hk
    obtain ⟨halive, hreplaying⟩ := hpublished k hactive
    exact ⟨halive, hactive, hreplaying⟩
  · rintro ⟨hrecording, hreplaying⟩
    rw [hs.recording] at hrecording
    rw [hs.replaying] at hreplaying
    rcases hs.exclusive with hidle | hidle
    · rw [hidle] at hreplaying
      cases hreplaying
    · rw [hidle] at hrecording
      cases hrecording
  · intro hwatch
    have hmay := hs.watching hwatch
    rw [hs.alive, if_neg]
    intro hidle
    rw [hidle] at hmay
    cases hmay
  · intro more t hguarded hrun
    have := Machine.length_le_of_measure step hbudget hs hguarded hrun
    omega
  · intro hsettled
    obtain ⟨hpending, hrest⟩ := hsettled.rest hs
    refine ⟨hpending, hsettled.unlocked hs, ?_⟩
    rcases hrest with ⟨hidle, hwatch⟩ | ⟨hplaying, -⟩
    · refine Or.inl ⟨hidle, hwatch, ?_, ?_⟩
      · rw [hs.alive, if_pos hidle]
      · rw [hs.replaying, hidle]
        rfl
    · exact Or.inr hplaying

/-- A call is cancelled while its replay plays and another stop waits for the lock; the playback
returns in between. -/
def cancelledReplay : List Label :=
  [.start true, .worker, .worker, .worker, .watch false, .watch true, .callStop, .watch false,
    .playbackReturns, .worker, .watch false, .enterStop, .leaveStop, .worker]

theorem replay_stops_reach_live_client_cancelledReplay :
    ∃ s, Machine.run step initial cancelledReplay = some s ∧ s.stopped = [1, 1] ∧
      s.alive = some 1 ∧ ¬ (s.recorder.isRecording = true ∧ s.isReplaying = true) := by
  have h : Machine.run step initial cancelledReplay = some _ := rfl
  exact ⟨_, h, rfl, rfl, (replay_stops_reach_live_client h).2.2.1⟩

end LocalReplay

end Evrp
