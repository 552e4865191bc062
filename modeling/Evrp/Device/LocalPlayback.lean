import Evrp.Lib.Machine
import Evrp.Sdk.Event

/-!
# Playback and its stop request

`playback` runs on the posted worker and `stopPlayback` on the thread of the
request, so any of its two steps can fall between any two steps of playback.
Playback copies the batch and sets `playing_` under the lock and clears the stop
flag only after that. A stop that falls between the two is forgotten; a stop at
any later moment ends playback after at most one more event.
-/

namespace Evrp

namespace LocalPlayback

/-- Where the playback call stands; the index is that of the event in the loop. -/
inductive Pc where
  | entry
  | copied
  | cleared
  | check (i : ℕ)
  | wait (i : ℕ)
  | write (i : ℕ)
  | written (i : ℕ)
  | finishing (result : StatusCode)
  | returned (result : StatusCode)
  deriving DecidableEq, Repr

/-- Where the stop call stands. -/
inductive StopPc where
  | idle
  | stored
  | returned
  deriving DecidableEq, Repr

/-- The playback object, the variables of one playback call and one stop call, and the
events whose writing was started; `progress` counts the releases of a semaphore that the
caller may have passed. -/
structure State where
  cached : List InputEvent
  playing : Bool
  stopRequested : Bool
  currentEventIndex : ℤ
  batch : List InputEvent
  prevUs : Option ℤ
  pc : Pc
  stopPc : StopPc
  progress : ℕ
  started : List InputEvent
  deriving DecidableEq, Repr

/-- The object as an earlier use has left it, with a fresh call of each kind. -/
def initial (cached : List InputEvent) (playing stopRequested : Bool) (currentEventIndex : ℤ) :
    State :=
  ⟨cached, playing, stopRequested, currentEventIndex, [], none, .entry, .idle, 0, []⟩

/-- The next step of playback, of a playback whose write fails, or of the stop. -/
inductive Label where
  | play
  | playWriteFails
  | stop
  deriving DecidableEq, Repr

/-- The next step of the playback call. The wait may last as long as it wants: other steps
fall before the write. -/
def playStep (s : State) : Option State :=
  match s.pc with
  | .entry =>
    if s.cached.isEmpty then some { s with pc := .returned ⟨1, "no recording uploaded"⟩ }
    else some { s with batch := s.cached, playing := true, pc := .copied }
  | .copied => some { s with stopRequested := false, pc := .cleared }
  | .cleared => some { s with currentEventIndex := -1, pc := .check 0 }
  | .check i =>
    if s.batch.length ≤ i then some { s with pc := .finishing ⟨0, ""⟩ }
    else if s.stopRequested then some { s with pc := .finishing ⟨0, ""⟩ }
    else some { s with pc := .wait i }
  | .wait i =>
    s.batch[i]?.bind fun e => some { s with prevUs := some e.timeUs, pc := .write i }
  | .write i =>
    s.batch[i]?.bind fun e => some { s with started := s.started ++ [e], pc := .written i }
  | .written i =>
    some { s with currentEventIndex := i, progress := s.progress + 1, pc := .check (i + 1) }
  | .finishing result => some { s with playing := false, pc := .returned result }
  | .returned _ => none

/-- The write of the current event fails. -/
def writeFails (s : State) : Option State :=
  match s.pc with
  | .write i =>
    s.batch[i]?.bind fun e => some { s with
      started := s.started ++ [e]
      pc := .finishing ⟨2, "write event failed during playback"⟩ }
  | _ => none

/-- The next step of the stop call. -/
def stopStep (s : State) : Option State :=
  match s.stopPc with
  | .idle => some { s with stopRequested := true, stopPc := .stored }
  | .stored => some { s with playing := false, stopPc := .returned }
  | .returned => none

def step (s : State) : Label → Option State
  | .play => playStep s
  | .playWriteFails => writeFails s
  | .stop => stopStep s

/-- Playback has set `playing_` and not returned yet. -/
def State.Active (s : State) : Prop := s.pc ≠ .entry ∧ ∀ result, s.pc ≠ .returned result

/-- The events started so far are those before the one in the loop. -/
def State.InOrder (s : State) : Prop :=
  match s.pc with
  | .entry | .copied | .cleared => s.started = []
  | .check i => s.started = s.batch.take i ∧ i ≤ s.batch.length
  | .wait i | .write i => s.started = s.batch.take i ∧ i < s.batch.length
  | .written i => s.started = s.batch.take (i + 1) ∧ i < s.batch.length
  | .finishing _ | .returned _ => s.started <+: s.batch

/-- Playback plays what is cached. -/
def State.Loaded (s : State) : Prop :=
  match s.pc with
  | .entry => s.batch = []
  | _ => s.batch = s.cached

/-- While no stop has begun the flag stays cleared, and an end without error comes after the
last event. -/
def State.Unstopped (s : State) : Prop :=
  s.stopPc = .idle →
    match s.pc with
    | .entry | .copied => True
    | .cleared | .check _ | .wait _ | .write _ | .written _ => s.stopRequested = false
    | .finishing result | .returned result => result.code = 0 → s.started = s.batch

/-- What holds of playback and stop in every interleaving. -/
structure State.Regular (s : State) : Prop where
  inOrder : s.InOrder
  loaded : s.Loaded
  unstopped : s.Unstopped

/-- How many events can still be started once the flag is seen. -/
def State.budget (s : State) : ℕ :=
  match s.pc with
  | .wait _ | .write _ => 1
  | _ => 0

/-- Playback is past the clearing of the flag and the flag is set. -/
def State.Stopping (s : State) : Prop :=
  s.stopRequested = true ∧ s.pc ≠ .entry ∧ s.pc ≠ .copied

/-- Writing the event in the loop extends what was started. -/
private theorem take_concat {batch : List InputEvent} {i : ℕ} {e : InputEvent}
    (h : batch[i]? = some e) : batch.take i ++ [e] = batch.take (i + 1) := by
  rw [List.take_add_one, h]
  rfl

theorem regular_initial (cached : List InputEvent) (playing stopRequested : Bool)
    (currentEventIndex : ℤ) : (initial cached playing stopRequested currentEventIndex).Regular :=
  ⟨rfl, rfl, fun _ => trivial⟩

/-- What is cached stays, and playback does not begin twice. -/
theorem step_frame {s t : State} {a : Label} (h : step s a = some t) :
    t.cached = s.cached ∧ (s.pc ≠ .entry → t.pc ≠ .entry) := by
  obtain ⟨cached, playing, stopRequested, index, batch, prevUs, pc, stopPc, progress, started⟩ := s
  cases a with
  | stop =>
    cases stopPc <;> simp only [step, stopStep, Option.some.injEq, reduceCtorEq] at h
    all_goals
      subst h
      exact ⟨rfl, id⟩
  | playWriteFails =>
    cases pc <;> simp only [step, writeFails, reduceCtorEq] at h
    obtain ⟨e, -, h⟩ := Option.bind_eq_some_iff.mp h
    obtain rfl := Option.some.inj h
    exact ⟨rfl, fun _ => Pc.noConfusion⟩
  | play =>
    cases pc <;> simp only [step, playStep, Option.some.injEq, reduceCtorEq] at h
    case entry =>
      split at h
      all_goals
        obtain rfl := Option.some.inj h
        exact ⟨rfl, fun _ => Pc.noConfusion⟩
    case check i =>
      split at h
      · obtain rfl := Option.some.inj h
        exact ⟨rfl, fun _ => Pc.noConfusion⟩
      · split at h
        all_goals
          obtain rfl := Option.some.inj h
          exact ⟨rfl, fun _ => Pc.noConfusion⟩
    case wait i | write i =>
      obtain ⟨e, -, h⟩ := Option.bind_eq_some_iff.mp h
      obtain rfl := Option.some.inj h
      exact ⟨rfl, fun _ => Pc.noConfusion⟩
    all_goals
      subst h
      exact ⟨rfl, fun _ => Pc.noConfusion⟩

theorem regular_stopStep {s t : State} (hs : s.Regular) (h : stopStep s = some t) :
    t.Regular := by
  obtain ⟨cached, playing, stopRequested, index, batch, prevUs, pc, stopPc, progress, started⟩ := s
  cases stopPc <;> simp only [stopStep, Option.some.injEq, reduceCtorEq] at h
  all_goals
    subst h
    exact ⟨hs.inOrder, hs.loaded, StopPc.noConfusion⟩

theorem regular_writeFails {s t : State} (hs : s.Regular) (h : writeFails s = some t) :
    t.Regular := by
  obtain ⟨cached, playing, stopRequested, index, batch, prevUs, pc, stopPc, progress, started⟩ := s
  obtain ⟨horder, hloaded, -⟩ := hs
  cases pc <;> simp only [writeFails, reduceCtorEq] at h
  case write i =>
    obtain ⟨e, he, h⟩ := Option.bind_eq_some_iff.mp h
    obtain rfl := Option.some.inj h
    obtain ⟨rfl, -⟩ : started = batch.take i ∧ i < batch.length := horder
    refine ⟨?_, hloaded, ?_⟩
    · simp only [State.InOrder, take_concat he]
      exact List.take_prefix _ _
    · intro _ hcode
      exact absurd hcode (by decide)

theorem regular_playStep {s t : State} (hs : s.Regular) (h : playStep s = some t) :
    t.Regular := by
  obtain ⟨cached, playing, stopRequested, index, batch, prevUs, pc, stopPc, progress, started⟩ := s
  obtain ⟨horder, hloaded, hunstopped⟩ := hs
  cases pc <;> simp only [playStep, Option.some.injEq, reduceCtorEq] at h
  case entry =>
    obtain rfl : started = [] := horder
    obtain rfl : batch = [] := hloaded
    split at h
    · rename_i hempty
      obtain rfl := Option.some.inj h
      refine ⟨List.nil_prefix, (List.isEmpty_iff.mp hempty).symm, ?_⟩
      intro _ hcode
      exact absurd hcode (by decide)
    · obtain rfl := Option.some.inj h
      exact ⟨rfl, rfl, fun _ => trivial⟩
  case copied =>
    subst h
    exact ⟨horder, hloaded, fun _ => rfl⟩
  case cleared =>
    subst h
    exact ⟨⟨horder, Nat.zero_le _⟩, hloaded, hunstopped⟩
  case check i =>
    obtain ⟨rfl, -⟩ : started = batch.take i ∧ i ≤ batch.length := horder
    split at h
    · rename_i hlength
      obtain rfl := Option.some.inj h
      exact ⟨List.take_prefix _ _, hloaded, fun _ _ => List.take_of_length_le hlength⟩
    · rename_i hlength
      split at h
      · rename_i hstop
        obtain rfl := Option.some.inj h
        refine ⟨List.take_prefix _ _, hloaded, ?_⟩
        intro hidle
        have hclear : stopRequested = false := hunstopped hidle
        rw [hclear] at hstop
        cases hstop
      · obtain rfl := Option.some.inj h
        exact ⟨⟨rfl, Nat.lt_of_not_le hlength⟩, hloaded, hunstopped⟩
  case wait i =>
    obtain ⟨e, -, h⟩ := Option.bind_eq_some_iff.mp h
    obtain rfl := Option.some.inj h
    exact ⟨horder, hloaded, hunstopped⟩
  case write i =>
    obtain ⟨e, he, h⟩ := Option.bind_eq_some_iff.mp h
    obtain rfl := Option.some.inj h
    obtain ⟨rfl, hlt⟩ : started = batch.take i ∧ i < batch.length := horder
    exact ⟨⟨take_concat he, hlt⟩, hloaded, hunstopped⟩
  case written i =>
    subst h
    exact ⟨⟨horder.1, horder.2⟩, hloaded, hunstopped⟩
  case finishing result =>
    subst h
    exact ⟨horder, hloaded, hunstopped⟩

theorem regular_step {s t : State} {a : Label} (hs : s.Regular) (h : step s a = some t) :
    t.Regular := by
  cases a with
  | play => exact regular_playStep hs h
  | playWriteFails => exact regular_writeFails hs h
  | stop => exact regular_stopStep hs h

/-- Once playback is stopping it stays so, and each started event uses up the budget. -/
theorem stopping_step {s t : State} {a : Label} (hs : s.Stopping) (h : step s a = some t) :
    t.Stopping ∧ t.started.length + t.budget ≤ s.started.length + s.budget := by
  obtain ⟨cached, playing, stopRequested, index, batch, prevUs, pc, stopPc, progress, started⟩ := s
  obtain ⟨hflag, hentry, hcopied⟩ := hs
  simp only at hflag hentry hcopied
  cases a with
  | stop =>
    cases stopPc <;> simp only [step, stopStep, Option.some.injEq, reduceCtorEq] at h
    · subst h
      exact ⟨⟨rfl, hentry, hcopied⟩, le_refl _⟩
    · subst h
      exact ⟨⟨hflag, hentry, hcopied⟩, le_refl _⟩
  | playWriteFails =>
    cases pc <;> simp only [step, writeFails, reduceCtorEq] at h
    obtain ⟨e, -, h⟩ := Option.bind_eq_some_iff.mp h
    obtain rfl := Option.some.inj h
    refine ⟨⟨hflag, nofun, nofun⟩, ?_⟩
    simp only [State.budget, List.length_append, List.length_singleton]
    omega
  | play =>
    cases pc <;> simp only [step, playStep, Option.some.injEq, reduceCtorEq] at h
    case entry => exact absurd rfl hentry
    case copied => exact absurd rfl hcopied
    case check i =>
      rw [if_pos hflag, ite_self] at h
      obtain rfl := Option.some.inj h
      exact ⟨⟨hflag, nofun, nofun⟩, le_refl _⟩
    case wait i =>
      obtain ⟨e, -, h⟩ := Option.bind_eq_some_iff.mp h
      obtain rfl := Option.some.inj h
      exact ⟨⟨hflag, nofun, nofun⟩, le_refl _⟩
    case write i =>
      obtain ⟨e, -, h⟩ := Option.bind_eq_some_iff.mp h
      obtain rfl := Option.some.inj h
      refine ⟨⟨hflag, nofun, nofun⟩, ?_⟩
      simp only [State.budget, List.length_append, List.length_singleton]
      omega
    all_goals
      subst h
      exact ⟨⟨hflag, nofun, nofun⟩, le_refl _⟩

theorem regular_run {s t : State} {labels : List Label} (hs : s.Regular)
    (h : Machine.run step s labels = some t) :
    t.Regular ∧ t.cached = s.cached ∧ (s.pc ≠ .entry → t.pc ≠ .entry) := by
  refine Machine.invariant_run step (I := fun u => u.Regular ∧ u.cached = s.cached ∧
    (s.pc ≠ .entry → u.pc ≠ .entry)) ?_ ⟨hs, rfl, id⟩ h
  rintro u a v ⟨hu, hcached, hpc⟩ huv
  have hv := regular_step hu huv
  obtain ⟨hvcached, hvpc⟩ := step_frame huv
  exact ⟨hv, hvcached.trans hcached, fun hne => hvpc (hpc hne)⟩

theorem stopping_run {s t : State} {labels : List Label} (hs : s.Stopping)
    (h : Machine.run step s labels = some t) :
    t.Stopping ∧ t.started.length + t.budget ≤ s.started.length + s.budget := by
  refine Machine.invariant_run step (I := fun u => u.Stopping ∧
    u.started.length + u.budget ≤ s.started.length + s.budget) ?_ ⟨hs, le_refl _⟩ h
  intro u a v hu huv
  obtain ⟨hv, hbudget⟩ := stopping_step hu.1 huv
  exact ⟨hv, hbudget.trans hu.2⟩

/-- Playback starts a prefix of its batch. -/
theorem State.InOrder.started_prefix {s : State} (hs : s.InOrder) : s.started <+: s.batch := by
  obtain ⟨cached, playing, stopRequested, index, batch, prevUs, pc, stopPc, progress, started⟩ := s
  cases pc with
  | entry | copied | cleared =>
    obtain rfl : started = [] := hs
    exact List.nil_prefix
  | check i | wait i | write i | written i =>
    have hstarted : started = batch.take _ := hs.1
    rw [hstarted]
    exact List.take_prefix _ _
  | finishing result | returned result => exact hs

theorem State.Loaded.batch_eq {s : State} (hs : s.Loaded) (hpc : s.pc ≠ .entry) :
    s.batch = s.cached := by
  unfold State.Loaded at hs
  split at hs
  · rename_i hentry
    exact absurd hentry hpc
  · exact hs

/-- Playback copies the batch once. -/
theorem batch_run {s t : State} {labels : List Label} (hs : s.Regular) (hpc : s.pc ≠ .entry)
    (h : Machine.run step s labels = some t) :
    t.batch = s.batch ∧ t.started.length ≤ t.batch.length := by
  obtain ⟨ht, hcached, hne⟩ := regular_run hs h
  refine ⟨?_, ht.inOrder.started_prefix.length_le⟩
  rw [ht.loaded.batch_eq (hne hpc), hcached, hs.loaded.batch_eq hpc]

/-- A playback that returns without error before any stop has begun started every cached event,
in order. -/
theorem started_eq_cached {cached : List InputEvent} {playing stopRequested : Bool}
    {currentEventIndex : ℤ} {labels : List Label} {t : State} {result : StatusCode}
    (h : Machine.run step (initial cached playing stopRequested currentEventIndex) labels = some t)
    (hidle : t.stopPc = .idle) (hpc : t.pc = .returned result) (hcode : result.code = 0) :
    t.started = cached := by
  obtain ⟨ht, hcached, -⟩ :=
    regular_run (regular_initial cached playing stopRequested currentEventIndex) h
  have hne : t.pc ≠ .entry := by
    rw [hpc]
    exact nofun
  have hwhole := ht.unstopped hidle
  rw [hpc] at hwhole
  rw [hwhole hcode, ht.loaded.batch_eq hne, hcached]
  rfl

/-- A stop request that falls into a playback is answered with at most one more event
exactly if it does not fall between the copying of a batch of several events and the
clearing of the flag. -/
theorem stop_bounds_playback_iff {cached : List InputEvent} {playing stopRequested : Bool}
    {currentEventIndex : ℤ} {before : List Label} {s : State}
    (hs : Machine.run step (initial cached playing stopRequested currentEventIndex) before = some s)
    (hactive : s.Active) (hidle : s.stopPc = .idle) :
    (∀ after u, Machine.run step s (.stop :: after) = some u →
      u.started.length ≤ s.started.length + 1) ↔ (s.pc ≠ .copied ∨ s.batch.length ≤ 1) := by
  have hregular : s.Regular :=
    (regular_run (regular_initial cached playing stopRequested currentEventIndex) hs).1
  constructor
  · intro hbound
    by_contra hnot
    obtain ⟨hpc, hlen⟩ := not_or.mp hnot
    rw [not_not] at hpc
    -- the stop is forgotten and two events are written
    obtain ⟨cached', playing', flag, index, batch, prevUs, pc, stopPc, progress, started⟩ := s
    obtain rfl : pc = .copied := hpc
    obtain rfl : stopPc = .idle := hidle
    obtain rfl : started = [] := hregular.inOrder
    match batch, hlen with
    | e₀ :: e₁ :: rest, _ =>
      have hlost := hbound (List.replicate 9 .play) _ rfl
      exact absurd hlost (by simp)
    | [e], hlen => exact absurd hlen (by simp)
    | [], hlen => exact absurd hlen (by simp)
  · intro hcond after u hu
    obtain ⟨v, hv, hafter⟩ := Option.bind_eq_some_iff.mp hu
    have hv' : v = { s with stopRequested := true, stopPc := .stored } := by
      rw [step, stopStep, hidle] at hv
      exact (Option.some.inj hv).symm
    by_cases hpc : s.pc = .copied
    · have hlen := hcond.resolve_left (not_not.mpr hpc)
      have hvregular : v.Regular := regular_step hregular hv
      have hvpc : v.pc ≠ .entry := by
        rw [hv']
        exact hactive.1
      obtain ⟨hbatch, hle⟩ := batch_run hvregular hvpc hafter
      rw [hbatch, hv'] at hle
      exact hle.trans (hlen.trans (Nat.le_add_left _ _))
    · have hstopping : v.Stopping := by
        rw [hv']
        exact ⟨rfl, hactive.1, hpc⟩
      have hle := (stopping_run hstopping hafter).2
      have hbudget : v.started.length + v.budget ≤ s.started.length + 1 := by
        rw [hv']
        unfold State.budget
        split <;> simp
      omega

/-- The press and the release of a key. -/
def keyTap : List InputEvent :=
  [⟨.keyboard, 0, 0, evKey, keyA, 1⟩, ⟨.keyboard, 0, 10, evKey, keyA, 0⟩]

/-- The stop arrives while the batch is copied and not yet played: both events are written. -/
theorem stop_lost_before_clearing : ∃ s u,
    Machine.run step (initial keyTap false false (-1)) [.play] = some s ∧
      s.Active ∧ s.stopPc = .idle ∧
      Machine.run step s (.stop :: List.replicate 9 .play) = some u ∧
      s.started.length + 1 < u.started.length :=
  ⟨_, _, rfl, ⟨nofun, nofun⟩, rfl, rfl, by decide⟩

theorem stop_bounds_playback_iff_midLoop : ∃ s,
    Machine.run step (initial keyTap false false (-1)) [.play, .play, .play, .play] = some s ∧
      ∀ after u, Machine.run step s (.stop :: after) = some u →
        u.started.length ≤ s.started.length + 1 :=
  ⟨_, rfl, (stop_bounds_playback_iff
    (show Machine.run step (initial keyTap false false (-1)) [.play, .play, .play, .play] =
      some _ from rfl) ⟨nofun, nofun⟩ rfl).mpr (Or.inl nofun)⟩

end LocalPlayback

end Evrp
