import Evrp.Device.GrpcPlaybackService

/-!
# The progress stream of an undisturbed playback

A subscriber that has drained the semaphore before playback starts loses no
release. What it sends for a release is the index at that moment, and it asks
for the index through the queue of the worker that is playing. The question is
answered when playback is over, so every message names the last event, and how
many of them are sent depends on when the end is marked.
-/

namespace Evrp

namespace LocalPlayback

/-- Playback of `n` events that nobody stops and whose writes succeed: its index and the number
of its releases at every step. -/
def State.Counted (n : ℕ) (s : State) : Prop :=
  s.cached.length = n ∧
    match s.pc with
    | .entry => s.progress = 0
    | .copied => s.batch = s.cached ∧ 0 < n ∧ s.progress = 0
    | .cleared => s.batch = s.cached ∧ 0 < n ∧ s.progress = 0 ∧ s.stopRequested = false
    | .check i => s.batch = s.cached ∧ 0 < n ∧ s.progress = i ∧ s.stopRequested = false ∧
        i ≤ n ∧ s.currentEventIndex = (i : ℤ) - 1
    | .wait i | .write i | .written i => s.batch = s.cached ∧ s.progress = i ∧
        s.stopRequested = false ∧ i < n
    | .finishing _ => 0 < n ∧ s.progress = n ∧ s.currentEventIndex = (n : ℤ) - 1
    | .returned _ => s.progress = n ∧ (0 < n → s.currentEventIndex = (n : ℤ) - 1)

/-- The steps such a playback still takes. -/
def State.left (n : ℕ) (s : State) : ℕ :=
  match s.pc with
  | .entry => 4 * n + 5
  | .copied => 4 * n + 4
  | .cleared => 4 * n + 3
  | .check i => 4 * (n - i) + 2
  | .wait i => 4 * (n - i) + 1
  | .write i => 4 * (n - i)
  | .written i => 4 * (n - i) - 1
  | .finishing _ => 1
  | .returned _ => 0

theorem counted_initial (cached : List InputEvent) (playing stopRequested : Bool)
    (currentEventIndex : ℤ) :
    (initial cached playing stopRequested currentEventIndex).Counted cached.length :=
  ⟨rfl, rfl⟩

theorem State.Counted.progress_le {n : ℕ} {s : State} (hs : s.Counted n) : s.progress ≤ n := by
  obtain ⟨-, hs⟩ := hs
  cases hpc : s.pc <;> simp only [hpc] at hs <;> omega

/-- One step of such a playback: one step less to take. -/
theorem counted_playStep {n : ℕ} {s t : State} (hs : s.Counted n) (h : playStep s = some t) :
    t.Counted n ∧ t.left n < s.left n ∧ s.progress ≤ t.progress := by
  obtain ⟨cached, playing, stopRequested, index, batch, prevUs, pc, stopPc, progress, started⟩ := s
  obtain ⟨hlength, hs⟩ := hs
  cases pc <;> simp only [playStep, Option.some.injEq, reduceCtorEq] at h <;>
    simp only at hs hlength
  case entry =>
    subst hs
    split at h
    · rename_i hempty
      obtain rfl := Option.some.inj h
      rw [List.isEmpty_iff.mp hempty, List.length_nil] at hlength
      subst hlength
      refine ⟨⟨?_, rfl, fun hpos => absurd hpos (Nat.lt_irrefl 0)⟩, Nat.zero_lt_succ _,
        le_refl _⟩
      rw [List.isEmpty_iff.mp hempty, List.length_nil]
    · rename_i hempty
      obtain rfl := Option.some.inj h
      have hpos : 0 < cached.length := by
        rw [List.length_pos_iff]
        simpa using hempty
      exact ⟨⟨hlength, rfl, hlength ▸ hpos, rfl⟩, Nat.lt_succ_self _, le_refl _⟩
  case copied =>
    subst h
    obtain ⟨hbatch, hpos, hprogress⟩ := hs
    exact ⟨⟨hlength, hbatch, hpos, hprogress, rfl⟩, Nat.lt_succ_self _, le_refl _⟩
  case cleared =>
    subst h
    obtain ⟨hbatch, hpos, hprogress, hclear⟩ := hs
    refine ⟨⟨hlength, hbatch, hpos, hprogress, hclear, Nat.zero_le _, rfl⟩, ?_, le_refl _⟩
    simp only [State.left]
    omega
  case check i =>
    obtain ⟨rfl, hpos, hprogress, rfl, hle, hindex⟩ := hs
    split at h
    · obtain rfl := Option.some.inj h
      obtain rfl : i = n := by omega
      refine ⟨⟨hlength, hpos, hprogress, hindex⟩, ?_, le_refl _⟩
      simp only [State.left]
      omega
    · rw [if_neg Bool.false_ne_true] at h
      obtain rfl := Option.some.inj h
      exact ⟨⟨hlength, rfl, hprogress, rfl, by omega⟩, Nat.lt_succ_self _, le_refl _⟩
  case wait i =>
    obtain ⟨e, -, h⟩ := Option.bind_eq_some_iff.mp h
    obtain rfl := Option.some.inj h
    exact ⟨⟨hlength, hs⟩, Nat.lt_succ_self _, le_refl _⟩
  case write i =>
    obtain ⟨e, -, h⟩ := Option.bind_eq_some_iff.mp h
    obtain rfl := Option.some.inj h
    obtain ⟨hbatch, hprogress, hclear, hlt⟩ := hs
    refine ⟨⟨hlength, hbatch, hprogress, hclear, hlt⟩, ?_, le_refl _⟩
    simp only [State.left]
    omega
  case written i =>
    subst h
    obtain ⟨hbatch, rfl, hclear, hlt⟩ := hs
    refine ⟨⟨hlength, hbatch, by omega, rfl, hclear, hlt, ?_⟩, ?_, Nat.le_succ _⟩
    · push_cast
      omega
    · simp only [State.left]
      omega
  case finishing result =>
    subst h
    obtain ⟨hpos, hprogress, hindex⟩ := hs
    exact ⟨⟨hlength, hprogress, fun _ => hindex⟩, Nat.zero_lt_one, le_refl _⟩

/-- Such a playback is never stuck. -/
theorem State.Counted.exists_playStep {n : ℕ} {s : State} (hs : s.Counted n)
    (hreturned : ∀ result, s.pc ≠ .returned result) : ∃ t, playStep s = some t := by
  obtain ⟨hlength, hs⟩ := hs
  cases hpc : s.pc <;> simp only [hpc] at hs <;> simp only [playStep, hpc]
  case entry => split <;> exact ⟨_, rfl⟩
  case check i =>
    split
    · exact ⟨_, rfl⟩
    · split <;> exact ⟨_, rfl⟩
  case wait i =>
    rw [List.getElem?_eq_getElem (show i < s.batch.length by rw [hs.1]; omega)]
    exact ⟨_, rfl⟩
  case write i =>
    rw [List.getElem?_eq_getElem (show i < s.batch.length by rw [hs.1]; omega)]
    exact ⟨_, rfl⟩
  case returned result => exact absurd hpc (hreturned result)
  all_goals exact ⟨_, rfl⟩

end LocalPlayback

namespace GrpcPlaybackService

/-- The subscriber has finished draining the semaphore. -/
def SubscribePc.drained : SubscribePc → Bool
  | .entry | .register | .drain => false
  | _ => true

/-- The release the subscriber has acquired and not yet answered with a message. -/
def SubscribePc.holding : SubscribePc → ℕ
  | .entry | .register | .drain | .loop | .acquire => 0
  | _ => 1

/-- The message the subscriber prepares after it has seen the stream unfinished. -/
def SubscribePc.sending : SubscribePc → ℕ
  | .post | .waiting | .write _ => 1
  | _ => 0

/-- The release the Playback call still owes. -/
def PlaybackPc.due : PlaybackPc → ℕ
  | .returned _ => 0
  | _ => 1

/-- The subscriber has not registered yet. -/
def SubscribePc.outside : SubscribePc → Bool
  | .entry | .register => true
  | _ => false

/-- The status the stream ends with. -/
def SubscribePc.status : SubscribePc → Option GrpcStatus
  | .unregister status | .returned status => some status
  | _ => none

/-- Playback has not been posted to the worker. -/
def PlaybackPc.upcoming : PlaybackPc → Bool
  | .entry | .drain | .reset | .post => true
  | _ => false

/-- The worker is done with playback. -/
def PlaybackPc.ended : PlaybackPc → Bool
  | .mark _ | .release _ | .returned _ => true
  | _ => false

/-- The task the Playback call waits for. -/
def PlaybackPc.posted : PlaybackPc → List Task
  | .waiting => [.playback]
  | _ => []

/-- The task the subscriber waits for. -/
def SubscribePc.posted : SubscribePc → List Task
  | .waiting => [.playbackIndex]
  | _ => []

theorem PlaybackPc.posted_eq_nil {pc : PlaybackPc} (h : pc ≠ .waiting) : pc.posted = [] := by
  cases pc <;> first | rfl | exact absurd rfl h

theorem SubscribePc.posted_eq_nil {pc : SubscribePc} (h : pc ≠ .waiting) : pc.posted = [] := by
  cases pc <;> first | rfl | exact absurd rfl h

/-- Both sessions are valid, the subscriber has drained before the Playback call takes its first
step, and there is no stop, no failed write and no cancelled stream. -/
def Undisturbed (s : State) : Label → Prop
  | .playbackCheck status => status.code = .ok ∧ s.subscribePc.drained = true
  | .subscribeCheck status => status.code = .ok
  | .playback | .subscribe | .worker => True
  | .subscribeCancelled | .subscribeWriteFails | .workerWriteFails | .stop => False

instance (s : State) : ∀ a, Decidable (Undisturbed s a)
  | .playbackCheck _ => inferInstanceAs (Decidable (_ ∧ _))
  | .subscribeCheck _ => inferInstanceAs (Decidable (_ = _))
  | .playback | .subscribe | .worker => isTrue trivial
  | .subscribeCancelled | .subscribeWriteFails | .workerWriteFails | .stop => isFalse id

/-- A service with an uploaded list of events and whatever an earlier playback left in its
semaphore. -/
def idle (inner : LocalPlayback.State) (finished : Bool) (sem : ℕ) : State :=
  { initial inner finished with playbackProgressSem := sem }

/-- What holds along every undisturbed run over `n` events. -/
structure Streaming (n : ℕ) (s : State) : Prop where
  counted : s.inner.Counted n
  upcoming : s.playbackPc.upcoming = true →
    s.inner.pc = .entry ∧ s.subscribePc.starting = true ∧ s.written = []
  admitted : s.playbackPc ≠ .entry → s.subscribePc.drained = true
  playing : s.playbackPc = .waiting → ∀ result, s.inner.pc ≠ .returned result
  ended : s.playbackPc.ended = true → ∃ result, s.inner.pc = .returned result
  queued : s.queue = s.playbackPc.posted ++ s.subscribePc.posted
  /-- Every release is in the semaphore, in the subscriber's hands or answered. -/
  balance : s.subscribePc.drained = true →
    s.playbackProgressSem + s.written.length + s.subscribePc.holding + s.playbackPc.due =
      s.inner.progress + 1
  finished : s.subscribePc.drained = true ∨ s.subscribePc = .drain →
    s.playbackProgressFinished = s.playbackPc.marked
  sending : s.written.length + s.subscribePc.sending ≤ s.inner.progress
  messages : ∀ x ∈ s.written, x = (n : ℤ) - 1
  message : ∀ x, s.subscribePc = .write x → x = (n : ℤ) - 1
  gone : ∀ status, s.subscribePc.status = some status →
    status = .ok ∧ s.playbackPc.marked = true
  unregistered : s.subscribePc.outside = true → s.subscriberActive = false

theorem streaming_idle (cached : List InputEvent) (playing stopRequested : Bool) (index : ℤ)
    (finished : Bool) (sem : ℕ) : Streaming cached.length
      (idle (LocalPlayback.initial cached playing stopRequested index) finished sem) where
  counted := LocalPlayback.counted_initial cached playing stopRequested index
  upcoming _ := ⟨rfl, rfl, rfl⟩
  admitted h := absurd rfl h
  playing := nofun
  ended := nofun
  queued := rfl
  balance := nofun
  finished h := by rcases h with h | h <;> cases h
  sending := le_refl 0
  messages := nofun
  message := nofun
  gone := nofun
  unregistered _ := rfl

/-- Before playback is posted a drained semaphore stays empty. -/
theorem Streaming.sem_eq_zero {n : ℕ} {s : State} (hs : Streaming n s)
    (hup : s.playbackPc.upcoming = true) (hdrained : s.subscribePc.drained = true) :
    s.playbackProgressSem = 0 := by
  obtain ⟨hpc, -, -⟩ := hs.upcoming hup
  have hbalance := hs.balance hdrained
  have hprogress : s.inner.progress = 0 := by
    have hcounted := hs.counted.2
    rw [hpc] at hcounted
    exact hcounted
  have hdue : s.playbackPc.due = 1 := by
    cases hpc : s.playbackPc <;> simp [hpc, PlaybackPc.upcoming] at hup <;> rfl
  omega

/-- The steps the Playback call still takes by itself. -/
def PlaybackPc.left : PlaybackPc → ℕ
  | .entry => 7
  | .drain => 6
  | .reset => 5
  | .post => 4
  | .waiting => 3
  | .mark _ => 2
  | .release _ => 1
  | .returned _ => 0

/-- The steps the subscriber still takes before it acquires again. -/
def SubscribePc.left : SubscribePc → ℕ
  | .entry => 5
  | .register => 4
  | .drain => 3
  | .loop => 2
  | .acquire => 1
  | .readFinished => 7
  | .post => 6
  | .waiting => 5
  | .write _ => 4
  | .unregister _ => 6
  | .returned _ => 0

/-- A bound on the steps still to come; each release costs a turn of the subscriber's loop. -/
def State.left (n : ℕ) (s : State) : ℕ :=
  s.playbackPc.left + s.inner.left n + s.subscribePc.left +
    7 * (s.playbackProgressSem + (n - s.inner.progress) + s.playbackPc.due)

/-- A step of the Playback call is one of those that were left. -/
theorem left_playbackStep {n : ℕ} {s t : State} (h : playbackStep s = some t) :
    t.left n < s.left n := by
  obtain ⟨inner, queue, sem, active, finished, playbackPc, subscribePc, written⟩ := s
  cases playbackPc <;> simp only [playbackStep, Option.some.injEq, reduceCtorEq] at h
  case drain =>
    split at h
    all_goals
      obtain rfl := Option.some.inj h
      simp only [State.left, PlaybackPc.left, PlaybackPc.due]
      omega
  all_goals
    subst h
    simp only [State.left, PlaybackPc.left, PlaybackPc.due]
    omega

/-- A step of the subscriber is one of those that were left; one that acquires pays for the turn
of its loop with the release. -/
theorem left_subscribeStep {n : ℕ} {s t : State} (h : subscribeStep s = some t) :
    t.left n < s.left n := by
  obtain ⟨inner, queue, sem, active, finished, playbackPc, subscribePc, written⟩ := s
  cases subscribePc <;> simp only [subscribeStep, Option.some.injEq, reduceCtorEq] at h
  case register | drain | readFinished =>
    split at h
    all_goals
      obtain rfl := Option.some.inj h
      simp only [State.left, SubscribePc.left]
      omega
  case acquire =>
    split at h
    · cases h
    · obtain rfl := Option.some.inj h
      simp only [State.left, SubscribePc.left]
      omega
  all_goals
    subst h
    simp only [State.left, SubscribePc.left]
    omega

theorem streaming_playbackStep {n : ℕ} {s t : State} (hs : Streaming n s)
    (h : playbackStep s = some t) : Streaming n t := by
  have hempty := hs.sem_eq_zero
  obtain ⟨inner, queue, sem, active, finished, playbackPc, subscribePc, written⟩ := s
  obtain ⟨hcounted, hup, hadm, hplaying, hended, hqueued, hbalance, hfinished, hsending,
    hmessages, hmessage, hgone, hunreg⟩ := hs
  cases playbackPc <;> simp only [playbackStep, Option.some.injEq, reduceCtorEq] at h
  case drain =>
    rw [if_pos (hempty rfl (hadm PlaybackPc.noConfusion))] at h
    obtain rfl := Option.some.inj h
    exact ⟨hcounted, hup, fun _ => hadm PlaybackPc.noConfusion, PlaybackPc.noConfusion,
      Bool.noConfusion, hqueued, hbalance, hfinished, hsending, hmessages, hmessage, hgone,
      hunreg⟩
  case reset =>
    subst h
    exact ⟨hcounted, hup, fun _ => hadm PlaybackPc.noConfusion, PlaybackPc.noConfusion,
      Bool.noConfusion, hqueued, hbalance, fun _ => rfl, hsending, hmessages, hmessage, hgone,
      hunreg⟩
  case post =>
    subst h
    obtain ⟨hentry, hstarting, -⟩ := hup rfl
    have hnot : subscribePc ≠ .waiting := by
      rintro rfl
      cases hstarting
    refine ⟨hcounted, Bool.noConfusion, fun _ => hadm PlaybackPc.noConfusion,
      fun _ result => ?_, Bool.noConfusion, ?_, hbalance, hfinished, hsending, hmessages, hmessage,
      hgone, hunreg⟩
    · simp only at hentry
      rw [hentry]
      exact LocalPlayback.Pc.noConfusion
    · simp only at hqueued
      rw [hqueued, SubscribePc.posted_eq_nil hnot]
      rfl
  case mark result =>
    subst h
    exact ⟨hcounted, Bool.noConfusion, fun _ => hadm PlaybackPc.noConfusion,
      PlaybackPc.noConfusion, hended, hqueued, hbalance, fun _ => rfl, hsending, hmessages,
      hmessage, fun status hstatus => ⟨(hgone status hstatus).1, rfl⟩, hunreg⟩
  case release result =>
    subst h
    refine ⟨hcounted, Bool.noConfusion, fun _ => hadm PlaybackPc.noConfusion,
      PlaybackPc.noConfusion, hended, hqueued, fun hdrained => ?_, hfinished, hsending, hmessages,
      hmessage, hgone, hunreg⟩
    have hbalance' := hbalance hdrained
    simp only [PlaybackPc.due] at hbalance' ⊢
    omega

/-- The Playback call waits at its entry until the subscriber has drained. -/
theorem Streaming.entry_of_not_drained {n : ℕ} {s : State} (hs : Streaming n s)
    (h : s.subscribePc.drained = false) : s.playbackPc = .entry := by
  by_contra hne
  exact Bool.false_ne_true (h.symm.trans (hs.admitted hne))

theorem SubscribePc.outside_of_drained {pc : SubscribePc} (h : pc.drained = true) :
    pc.outside = false := by
  cases pc <;> first | rfl | cases h

/-- A drained subscriber moves on without touching the semaphore, the queue or the stream. -/
theorem Streaming.advance {n : ℕ} {s : State} (hs : Streaming n s)
    (hdrained : s.subscribePc.drained = true) {pc : SubscribePc} (active : Bool)
    (hpc : pc.drained = true) (hstarting : s.subscribePc.starting = true → pc.starting = true)
    (hposted : pc.posted = s.subscribePc.posted) (hholding : pc.holding = s.subscribePc.holding)
    (hsending : s.written.length + pc.sending ≤ s.inner.progress)
    (hmessage : ∀ x, pc ≠ .write x)
    (hgone : ∀ status, pc.status = some status → status = .ok ∧ s.playbackPc.marked = true) :
    Streaming n { s with subscribePc := pc, subscriberActive := active } where
  counted := hs.counted
  upcoming hup := by
    obtain ⟨hentry, hstart, hwritten⟩ := hs.upcoming hup
    exact ⟨hentry, hstarting hstart, hwritten⟩
  admitted _ := hpc
  playing := hs.playing
  ended := hs.ended
  queued := by
    simp only [hposted]
    exact hs.queued
  balance _ := by
    simp only [hholding]
    exact hs.balance hdrained
  finished _ := hs.finished (Or.inl hdrained)
  sending := hsending
  messages := hs.messages
  message x hx := absurd hx (hmessage x)
  gone := hgone
  unregistered hout := Bool.noConfusion (hout.symm.trans (SubscribePc.outside_of_drained hpc))

theorem streaming_subscribeStep {n : ℕ} {s t : State} (hs : Streaming n s)
    (h : subscribeStep s = some t) : Streaming n t := by
  have hempty := hs.sem_eq_zero
  have hentry := hs.entry_of_not_drained
  have hadvance := hs.advance
  obtain ⟨inner, queue, sem, active, finished, playbackPc, subscribePc, written⟩ := s
  obtain ⟨hcounted, hup, hadm, hplaying, hended, hqueued, hbalance, hfinished, hsending,
    hmessages, hmessage, hgone, hunreg⟩ := hs
  simp only at hqueued hsending hmessages
  have hstarted (hpc : subscribePc.starting = false) (hupcoming : playbackPc.upcoming = true) :
      False := Bool.false_ne_true (hpc.symm.trans (hup hupcoming).2.1)
  have hinside {pc : SubscribePc} (hpc : pc.status = none) (status : GrpcStatus)
      (hstatus : pc.status = some status) : status = .ok ∧ playbackPc.marked = true :=
    absurd (hstatus.symm.trans hpc) (Option.some_ne_none status)
  cases subscribePc <;> simp only [subscribeStep, Option.some.injEq, reduceCtorEq] at h
  case register =>
    obtain rfl : active = false := hunreg rfl
    obtain rfl : playbackPc = .entry := hentry rfl
    rw [if_neg Bool.false_ne_true] at h
    obtain rfl := Option.some.inj h
    exact ⟨hcounted, hup, fun hne => absurd rfl hne, PlaybackPc.noConfusion, Bool.noConfusion,
      hqueued, Bool.noConfusion, fun _ => rfl, hsending, hmessages,
      fun _ => SubscribePc.noConfusion, hinside rfl, Bool.noConfusion⟩
  case drain =>
    obtain rfl : playbackPc = .entry := hentry rfl
    split at h
    · rename_i hsem
      obtain rfl := Option.some.inj h
      obtain ⟨hinner, -, hwritten⟩ := hup rfl
      simp only at hinner hwritten hsem
      subst hsem hwritten
      have hprogress := hcounted.2
      simp only [hinner] at hprogress
      refine ⟨hcounted, fun _ => ⟨hinner, rfl, rfl⟩, fun _ => rfl, PlaybackPc.noConfusion,
        Bool.noConfusion, hqueued, fun _ => ?_, fun _ => hfinished (Or.inr rfl), hsending,
        hmessages, fun _ => SubscribePc.noConfusion, hinside rfl, Bool.noConfusion⟩
      rw [hprogress]
      rfl
    · obtain rfl := Option.some.inj h
      exact ⟨hcounted, hup, hadm, hplaying, hended, hqueued, Bool.noConfusion, hfinished,
        hsending, hmessages, hmessage, hgone, hunreg⟩
  case loop =>
    subst h
    exact hadvance rfl active rfl (fun _ => rfl) rfl rfl hsending
      (fun _ => SubscribePc.noConfusion) (hinside rfl)
  case acquire =>
    split at h
    · cases h
    · rename_i hsem
      obtain rfl := Option.some.inj h
      have hbalance' := hbalance rfl
      simp only [SubscribePc.holding] at hbalance' hsem
      refine ⟨hcounted, fun hpc => absurd (hempty hpc rfl) hsem, fun _ => rfl, hplaying, hended,
        hqueued, fun _ => ?_, fun _ => hfinished (Or.inl rfl), hsending, hmessages,
        fun _ => SubscribePc.noConfusion, hinside rfl, Bool.noConfusion⟩
      simp only [SubscribePc.holding]
      omega
  case readFinished =>
    have hfinished' := hfinished (Or.inl rfl)
    have hbalance' := hbalance rfl
    simp only [SubscribePc.holding, SubscribePc.sending] at hbalance' hfinished' hsending
    split at h
    · rename_i htrue
      obtain rfl := Option.some.inj h
      refine hadvance rfl active rfl Bool.noConfusion rfl rfl hsending
        (fun _ => SubscribePc.noConfusion) fun status hpc => ?_
      obtain rfl := Option.some.inj hpc
      exact ⟨rfl, hfinished'.symm.trans htrue⟩
    · rename_i hfalse
      obtain rfl := Option.some.inj h
      have hdue : playbackPc.due = 1 := by
        rw [hfinished'] at hfalse
        cases playbackPc <;> first | rfl | exact absurd rfl hfalse
      refine hadvance rfl active rfl Bool.noConfusion rfl rfl ?_
        (fun _ => SubscribePc.noConfusion) (hinside rfl)
      simp only [SubscribePc.sending]
      omega
  case post =>
    subst h
    refine ⟨hcounted, fun hpc => (hstarted rfl hpc).elim, fun _ => rfl, hplaying, hended, ?_,
      fun _ => hbalance rfl, fun _ => hfinished (Or.inl rfl), hsending, hmessages,
      fun _ => SubscribePc.noConfusion, hinside rfl, Bool.noConfusion⟩
    have hnil : SubscribePc.post.posted = [] := rfl
    rw [hqueued, hnil, List.append_nil]
    rfl
  case write x =>
    subst h
    have hbalance' := hbalance rfl
    simp only [SubscribePc.holding, SubscribePc.sending] at hbalance' hsending
    refine ⟨hcounted, fun hpc => (hstarted rfl hpc).elim, fun _ => rfl, hplaying, hended, hqueued,
      fun _ => ?_, fun _ => hfinished (Or.inl rfl), ?_, fun y hy => ?_,
      fun _ => SubscribePc.noConfusion, hinside rfl, Bool.noConfusion⟩
    · simp only [SubscribePc.holding, List.length_append, List.length_singleton]
      omega
    · simp only [SubscribePc.sending, List.length_append, List.length_singleton]
      omega
    · rcases List.mem_append.mp hy with hy | hy
      · exact hmessages y hy
      · rw [List.mem_singleton.mp hy]
        exact hmessage x rfl
  case unregister status =>
    subst h
    exact hadvance rfl false rfl Bool.noConfusion rfl rfl hsending
      (fun _ => SubscribePc.noConfusion) hgone

theorem streaming_workerStep {n : ℕ} {s t : State} (hs : Streaming n s)
    (h : workerStep s .play = some t) : Streaming n t ∧ t.left n < s.left n := by
  obtain ⟨inner, queue, sem, active, finished, playbackPc, subscribePc, written⟩ := s
  obtain ⟨hcounted, hup, hadm, hplaying, hended, hqueued, hbalance, hfinished, hsending,
    hmessages, hmessage, hgone, hunreg⟩ := hs
  simp only at hqueued hsending hmessages hcounted
  by_cases hpc : playbackPc = .waiting
  · -- the worker is playing
    subst hpc hqueued
    obtain ⟨inner', hinner, rfl⟩ := Option.map_eq_some_iff.mp h
    obtain ⟨hcounted', hleft, hprogress⟩ := LocalPlayback.counted_playStep hcounted hinner
    have hle := hcounted'.progress_le
    have hbalance' : subscribePc.drained = true → sem + (inner'.progress - inner.progress) +
        written.length + subscribePc.holding + 1 = inner'.progress + 1 := by
      intro hdrained
      have : sem + written.length + subscribePc.holding + 1 = inner.progress + 1 :=
        hbalance hdrained
      omega
    dsimp only
    split
    · rename_i result hresult
      refine ⟨⟨hcounted', Bool.noConfusion, fun _ => hadm PlaybackPc.noConfusion,
        PlaybackPc.noConfusion, fun _ => ⟨result, hresult⟩, rfl, hbalance', hfinished,
        hsending.trans hprogress, hmessages, hmessage, hgone, hunreg⟩, ?_⟩
      simp only [State.left, PlaybackPc.left, PlaybackPc.due]
      omega
    · rename_i hresult
      refine ⟨⟨hcounted', Bool.noConfusion, fun _ => hadm PlaybackPc.noConfusion,
        fun _ => hresult, Bool.noConfusion, rfl, hbalance', hfinished, hsending.trans hprogress,
        hmessages, hmessage, hgone, hunreg⟩, ?_⟩
      simp only [State.left, PlaybackPc.left, PlaybackPc.due]
      omega
  · -- playback is over, and the subscriber is told its last index
    rw [PlaybackPc.posted_eq_nil hpc, List.nil_append] at hqueued
    by_cases hwaiting : subscribePc = .waiting
    · subst hwaiting hqueued
      obtain rfl := Option.some.inj h
      have hstarted : playbackPc.upcoming = true → False := fun hpc =>
        Bool.noConfusion (hup hpc).2.1
      have hover : playbackPc.ended = true := by
        cases playbackPc <;> first | rfl | exact absurd rfl hpc | exact (hstarted rfl).elim
      obtain ⟨result, hresult⟩ := hended hover
      have hindex : inner.currentEventIndex = (n : ℤ) - 1 := by
        have hle := hcounted.progress_le
        have hlast := hcounted.2
        rw [hresult] at hlast
        simp only [SubscribePc.sending] at hsending
        exact hlast.2 (by omega)
      refine ⟨⟨hcounted, fun hpc => (hstarted hpc).elim, fun _ => rfl, hplaying, hended, ?_,
        fun _ => hbalance rfl, fun _ => hfinished (Or.inl rfl), hsending, hmessages, fun x hx => ?_,
        fun status hstatus => absurd hstatus.symm (Option.some_ne_none status),
        Bool.noConfusion⟩, ?_⟩
      · rw [PlaybackPc.posted_eq_nil hpc]
        rfl
      · rw [← SubscribePc.write.inj hx]
        exact hindex
      · simp only [State.left, SubscribePc.left]
        omega
    · rw [SubscribePc.posted_eq_nil hwaiting] at hqueued
      subst hqueued
      cases h

theorem streaming_step {n : ℕ} {s t : State} {a : Label} (hs : Streaming n s)
    (hguard : Undisturbed s a) (h : step s a = some t) :
    Streaming n t ∧ t.left n < s.left n := by
  cases a with
  | playback => exact ⟨streaming_playbackStep hs h, left_playbackStep h⟩
  | subscribe => exact ⟨streaming_subscribeStep hs h, left_subscribeStep h⟩
  | worker => exact streaming_workerStep hs h
  | playbackCheck status =>
    obtain ⟨hstatus, hdrained⟩ := hguard
    obtain ⟨inner, queue, sem, active, finished, playbackPc, subscribePc, written⟩ := s
    obtain ⟨hcounted, hup, hadm, hplaying, hended, hqueued, hbalance, hfinished, hsending,
      hmessages, hmessage, hgone, hunreg⟩ := hs
    cases playbackPc <;> simp only [step, playbackCheck, reduceCtorEq] at h
    rw [if_pos hstatus] at h
    obtain rfl := Option.some.inj h
    refine ⟨⟨hcounted, hup, fun _ => hdrained, PlaybackPc.noConfusion, Bool.noConfusion, hqueued,
      hbalance, hfinished, hsending, hmessages, hmessage, hgone, hunreg⟩, ?_⟩
    simp only [State.left, PlaybackPc.left, PlaybackPc.due]
    omega
  | subscribeCheck status =>
    obtain ⟨inner, queue, sem, active, finished, playbackPc, subscribePc, written⟩ := s
    obtain ⟨hcounted, hup, hadm, hplaying, hended, hqueued, hbalance, hfinished, hsending,
      hmessages, hmessage, hgone, hunreg⟩ := hs
    cases subscribePc <;> simp only [step, subscribeCheck, reduceCtorEq] at h
    have hstatus : status.code = .ok := hguard
    rw [if_pos hstatus] at h
    obtain rfl := Option.some.inj h
    refine ⟨⟨hcounted, hup, hadm, hplaying, hended, hqueued, Bool.noConfusion, ?_, hsending,
      hmessages, fun _ => SubscribePc.noConfusion,
      fun status hstatus => absurd hstatus.symm (Option.some_ne_none status),
      fun _ => hunreg rfl⟩, ?_⟩
    · rintro (hpc | hpc) <;> cases hpc
    · simp only [State.left, SubscribePc.left]
      omega
  | subscribeCancelled => exact hguard.elim
  | subscribeWriteFails => exact hguard.elim
  | workerWriteFails => exact hguard.elim
  | stop => exact hguard.elim

/-- The worker always has a next step for a call that waits for it. -/
theorem Streaming.exists_workerStep {n : ℕ} {s : State} (hs : Streaming n s)
    (hpc : s.playbackPc = .waiting ∨ s.subscribePc = .waiting) :
    ∃ t, step s .worker = some t := by
  have hqueued := hs.queued
  by_cases hwaiting : s.playbackPc = .waiting
  · obtain ⟨inner, hinner⟩ := hs.counted.exists_playStep (hs.playing hwaiting)
    have hplay : LocalPlayback.step s.inner .play = some inner := hinner
    rw [hwaiting] at hqueued
    simp only [step, workerStep, hqueued, PlaybackPc.posted, List.cons_append, hplay]
    exact ⟨_, rfl⟩
  · rw [PlaybackPc.posted_eq_nil hwaiting, hpc.resolve_left hwaiting] at hqueued
    simp only [step, workerStep, hqueued, SubscribePc.posted, List.nil_append]
    exact ⟨_, rfl⟩

/-- An undisturbed run that cannot be continued has ended the stream. -/
theorem Streaming.ended_of_stuck {n : ℕ} {s : State} (hs : Streaming n s)
    (hstuck : ∀ a, Undisturbed s a → step s a = none) : s.subscribePc = .returned .ok := by
  have hworker (hpc : s.playbackPc = .waiting ∨ s.subscribePc = .waiting) : False := by
    obtain ⟨t, ht⟩ := hs.exists_workerStep hpc
    rw [hstuck .worker trivial] at ht
    cases ht
  have hsubscribe := hstuck .subscribe trivial
  have hplayback := hstuck .playback trivial
  cases hsub : s.subscribePc <;> simp only [step, subscribeStep, hsub, reduceCtorEq] at hsubscribe
  case entry =>
    have := hstuck (.subscribeCheck .ok) rfl
    simp only [step, subscribeCheck, hsub] at this
    cases this
  case register => split at hsubscribe <;> cases hsubscribe
  case drain => split at hsubscribe <;> cases hsubscribe
  case readFinished => split at hsubscribe <;> cases hsubscribe
  case waiting => exact (hworker (Or.inr hsub)).elim
  case returned status => rw [(hs.gone status (by rw [hsub]; rfl)).1]
  case acquire =>
    split at hsubscribe
    · rename_i hsem
      have hdrained : s.subscribePc.drained = true := by rw [hsub]; rfl
      cases hpc : s.playbackPc <;> simp only [step, playbackStep, hpc, reduceCtorEq] at hplayback
      case entry =>
        have := hstuck (.playbackCheck .ok) ⟨rfl, hdrained⟩
        simp only [step, playbackCheck, hpc] at this
        cases this
      case drain => split at hplayback <;> cases hplayback
      case waiting => exact (hworker (Or.inl hpc)).elim
      case returned status =>
        -- the last release is still to be acquired, as no message answered it
        have hbalance := hs.balance hdrained
        have hsending := hs.sending
        rw [hsub, hpc, hsem] at hbalance
        simp only [SubscribePc.holding, PlaybackPc.due] at hbalance
        omega
    · cases hsubscribe

/-! ## The first look at the flag -/

/-- The subscriber has seen the stream unfinished. -/
def State.HasRead (s : State) : Prop := s.subscribePc.sending = 1 ∨ s.written ≠ []

instance (s : State) : Decidable s.HasRead :=
  inferInstanceAs (Decidable (s.subscribePc.sending = 1 ∨ s.written ≠ []))

def PlaybackPc.marking : PlaybackPc → Bool
  | .mark _ => true
  | _ => false

/-- The Playback call marks the end only after the subscriber has looked at the flag once. -/
def Prompt (s : State) : Label → Prop
  | .playback => s.playbackPc.marking = true → s.HasRead
  | _ => True

instance (s : State) : ∀ a, Decidable (Prompt s a)
  | .playback => inferInstanceAs (Decidable (_ → _))
  | .playbackCheck _ | .subscribeCheck _ | .subscribe | .subscribeCancelled | .subscribeWriteFails
  | .worker | .workerWriteFails | .stop => isTrue trivial

/-- The Playback call leaves the subscriber alone. -/
theorem playbackStep_frame {s t : State} (h : playbackStep s = some t) :
    (t.HasRead ↔ s.HasRead) ∧ (s.playbackPc.marked = true → t.playbackPc.marked = true) ∧
      (t.playbackPc.marked = true → s.playbackPc.marked = true ∨ s.playbackPc.marking = true) := by
  cases hpc : s.playbackPc <;>
    simp only [playbackStep, hpc, Option.some.injEq, reduceCtorEq] at h
  case drain =>
    split at h
    all_goals
      obtain rfl := Option.some.inj h
      exact ⟨Iff.rfl, Bool.noConfusion, Bool.noConfusion⟩
  case mark => subst h; exact ⟨Iff.rfl, fun _ => rfl, fun _ => Or.inr rfl⟩
  case release => subst h; exact ⟨Iff.rfl, fun _ => rfl, fun _ => Or.inl rfl⟩
  all_goals
    subst h
    exact ⟨Iff.rfl, Bool.noConfusion, Bool.noConfusion⟩

/-- A look at the flag is not forgotten, and once the end is marked there is no first one. -/
theorem subscribeStep_frame {s t : State} (h : subscribeStep s = some t) :
    t.playbackPc = s.playbackPc ∧ (s.HasRead → t.HasRead) ∧
      (s.playbackProgressFinished = true → t.HasRead → s.HasRead) := by
  cases hpc : s.subscribePc <;>
    simp only [subscribeStep, hpc, Option.some.injEq, reduceCtorEq] at h
  case write x =>
    subst h
    refine ⟨rfl, fun _ => Or.inr (by simp), fun _ _ => Or.inl ?_⟩
    rw [hpc]
    rfl
  case post =>
    subst h
    refine ⟨rfl, fun _ => Or.inl rfl, fun _ _ => Or.inl ?_⟩
    rw [hpc]
    rfl
  case readFinished =>
    split at h
    · obtain rfl := Option.some.inj h
      simp [State.HasRead, hpc, SubscribePc.sending]
    · rename_i hfalse
      obtain rfl := Option.some.inj h
      exact ⟨rfl, fun _ => Or.inl rfl, fun htrue => absurd htrue hfalse⟩
  case acquire =>
    split at h
    · cases h
    · obtain rfl := Option.some.inj h
      simp [State.HasRead, hpc, SubscribePc.sending]
  case drain =>
    split at h
    all_goals
      obtain rfl := Option.some.inj h
      simp [State.HasRead, hpc, SubscribePc.sending]
  case register =>
    split at h
    all_goals
      obtain rfl := Option.some.inj h
      simp [State.HasRead, hpc, SubscribePc.sending]
  all_goals
    subst h
    simp [State.HasRead, hpc, SubscribePc.sending]

theorem workerStep_frame {n : ℕ} {s t : State} (hs : Streaming n s)
    (h : workerStep s .play = some t) :
    (t.HasRead ↔ s.HasRead) ∧ t.playbackPc.marked = s.playbackPc.marked := by
  have hqueued := hs.queued
  by_cases hpc : s.playbackPc = .waiting
  · rw [hpc] at hqueued
    rw [workerStep, hqueued] at h
    obtain ⟨inner, -, rfl⟩ := Option.map_eq_some_iff.mp h
    dsimp only
    split
    · rw [hpc]
      exact ⟨Iff.rfl, rfl⟩
    · exact ⟨Iff.rfl, rfl⟩
  · rw [PlaybackPc.posted_eq_nil hpc, List.nil_append] at hqueued
    by_cases hwaiting : s.subscribePc = .waiting
    · rw [hwaiting] at hqueued
      rw [workerStep, hqueued] at h
      obtain rfl := Option.some.inj h
      simp [State.HasRead, hwaiting, SubscribePc.sending]
    · rw [SubscribePc.posted_eq_nil hwaiting] at hqueued
      rw [workerStep, hqueued] at h
      cases h

/-- How one undisturbed step treats the first look and the mark. -/
theorem step_frame {n : ℕ} {s t : State} {a : Label} (hs : Streaming n s)
    (hguard : Undisturbed s a) (h : step s a = some t) :
    (s.HasRead → t.HasRead) ∧
      (s.playbackPc.marked = true → t.playbackPc.marked = true ∧ (t.HasRead → s.HasRead)) ∧
      (t.playbackPc.marked = true → s.playbackPc.marked = true ∨
        a = .playback ∧ s.playbackPc.marking = true ∧ (t.HasRead ↔ s.HasRead)) := by
  cases a with
  | playback =>
    obtain ⟨hread, hmarked, hmarking⟩ := playbackStep_frame h
    exact ⟨hread.mpr, fun hm => ⟨hmarked hm, hread.mp⟩,
      fun hm => (hmarking hm).imp_right fun hmark => ⟨rfl, hmark, hread⟩⟩
  | subscribe =>
    obtain ⟨hpc, hread, hlate⟩ := subscribeStep_frame h
    rw [hpc]
    refine ⟨hread, fun hm => ⟨hm, hlate ?_⟩, Or.inl⟩
    have hdrained := hs.admitted (by rintro he; rw [he] at hm; cases hm)
    rw [hs.finished (Or.inl hdrained)]
    exact hm
  | worker =>
    obtain ⟨hread, hmarked⟩ := workerStep_frame hs h
    rw [hmarked]
    exact ⟨hread.mpr, fun hm => ⟨hm, hread.mp⟩, Or.inl⟩
  | playbackCheck status =>
    simp only [step, playbackCheck] at h
    split at h
    · rename_i hpc
      have hstatus : status.code = .ok := hguard.1
      rw [if_pos hstatus] at h
      obtain rfl := Option.some.inj h
      rw [hpc]
      exact ⟨id, Bool.noConfusion, Bool.noConfusion⟩
    · cases h
  | subscribeCheck status =>
    simp only [step, subscribeCheck] at h
    split at h
    · rename_i hpc
      have hstatus : status.code = .ok := hguard
      rw [if_pos hstatus] at h
      obtain rfl := Option.some.inj h
      simp only [State.HasRead, hpc, SubscribePc.sending]
      exact ⟨id, fun hm => ⟨hm, id⟩, Or.inl⟩
    · cases h
  | subscribeCancelled => exact hguard.elim
  | subscribeWriteFails => exact hguard.elim
  | workerWriteFails => exact hguard.elim
  | stop => exact hguard.elim

/-! ## Whole runs -/

section Runs

variable {n : ℕ} {s t : State} {labels : List Label}

theorem streaming_run (hs : Streaming n s) (hg : Machine.Guarded step Undisturbed s labels)
    (h : Machine.run step s labels = some t) : Streaming n t :=
  Machine.invariant_guarded_run step (fun _ _ _ hs hguard h => (streaming_step hs hguard h).1)
    hs hg h

/-- With a prompt first look, the subscriber has a message to send when the end is marked. -/
theorem hasRead_of_prompt (hs : Streaming n s) (hmarked : s.playbackPc.marked = true → s.HasRead)
    (hg : Machine.Guarded step Undisturbed s labels)
    (hprompt : Machine.Guarded step Prompt s labels) (h : Machine.run step s labels = some t) :
    t.playbackPc.marked = true → t.HasRead := by
  induction labels generalizing s with
  | nil => exact Option.some.inj h ▸ hmarked
  | cons a labels ih =>
    obtain ⟨u, hu, hrest⟩ := Option.bind_eq_some_iff.mp h
    obtain ⟨hread, -, hmark⟩ := step_frame hs hg.1 hu
    refine ih (streaming_step hs hg.1 hu).1 (fun hm => ?_) (hg.2 u hu) (hprompt.2 u hu) hrest
    rcases hmark hm with hm | ⟨rfl, hmarking, -⟩
    · exact hread (hmarked hm)
    · exact hread (hprompt.1 hmarking)

/-- A subscriber that has not looked before the end is marked sends nothing. -/
theorem not_hasRead_of_marked (hs : Streaming n s) (hmarked : s.playbackPc.marked = true)
    (hread : ¬ s.HasRead) (hg : Machine.Guarded step Undisturbed s labels)
    (h : Machine.run step s labels = some t) : ¬ t.HasRead := by
  induction labels generalizing s with
  | nil => exact Option.some.inj h ▸ hread
  | cons a labels ih =>
    obtain ⟨u, hu, hrest⟩ := Option.bind_eq_some_iff.mp h
    obtain ⟨-, hframe, -⟩ := step_frame hs hg.1 hu
    obtain ⟨hmarked', hread'⟩ := hframe hmarked
    exact ih (streaming_step hs hg.1 hu).1 hmarked' (fun hr => hread (hread' hr)) (hg.2 u hu) hrest

/-- A run that is not prompt marks the end before the first look. -/
theorem not_hasRead_of_not_prompt (hs : Streaming n s)
    (hg : Machine.Guarded step Undisturbed s labels)
    (hprompt : ¬ Machine.Guarded step Prompt s labels) (h : Machine.run step s labels = some t) :
    ¬ t.HasRead := by
  obtain ⟨before, a, after, u, v, rfl, hu, hv, ht, hnot⟩ :=
    Machine.exists_unguarded_step step h hprompt
  obtain ⟨hbefore, hafter⟩ := (Machine.guarded_append step).mp hg
  obtain ⟨hguard, hrest⟩ := hafter u hu
  have hsu := streaming_run hs hbefore hu
  cases a with
  | playback =>
    obtain ⟨hmarking, hread⟩ := Classical.not_imp.mp hnot
    obtain ⟨hiff, -, -⟩ := playbackStep_frame hv
    have hmarked : v.playbackPc.marked = true := by
      cases hpc : u.playbackPc <;> simp only [hpc, PlaybackPc.marking, reduceCtorEq] at hmarking
      simp only [step, playbackStep, hpc, Option.some.injEq] at hv
      rw [← hv]
      rfl
    exact not_hasRead_of_marked (streaming_step hsu hguard hv).1 hmarked
      (fun hr => hread (hiff.mp hr)) (hrest v hv) ht
  | _ => exact absurd trivial hnot

end Runs

/-- The indices the stream should carry. -/
def completeProgress (n : ℕ) : List ℤ := (List.range n).map fun i => (i : ℤ)

/-- Messages that all name the last event are complete for at most one event. -/
theorem Streaming.written_eq_complete_iff {n : ℕ} {s : State} {status : GrpcStatus}
    (hs : Streaming n s) (hpc : s.subscribePc = .returned status) :
    s.written = completeProgress n ↔ n = 0 ∨ (n = 1 ∧ s.HasRead) := by
  have hsending := hs.sending
  have hle := hs.counted.progress_le
  have hmessages := hs.messages
  have hread : s.HasRead ↔ s.written ≠ [] := by
    rw [State.HasRead, hpc]
    exact or_iff_right nofun
  rw [hread]
  match n with
  | 0 =>
    have hnil : s.written = [] := List.length_eq_zero_iff.mp (by omega)
    rw [hnil]
    exact iff_of_true rfl (Or.inl rfl)
  | 1 =>
    have hlength : s.written.length ≤ 1 := by omega
    match hwritten : s.written, hlength with
    | [], _ => simp [completeProgress]
    | [x], _ =>
      have hx : x = 0 := by
        simpa using hmessages x (by rw [hwritten]; exact List.mem_singleton_self x)
      rw [hx]
      exact iff_of_true rfl (Or.inr ⟨rfl, nofun⟩)
  | n + 2 =>
    refine iff_of_false (fun hcomplete => ?_) (by omega)
    -- the first message of a complete stream names the first event
    have hzero : (0 : ℤ) ∈ s.written := by
      rw [hcomplete, completeProgress, List.range_succ_eq_map]
      exact List.mem_cons_self
    have := hmessages 0 hzero
    push_cast at this
    omega

/-- Every undisturbed run ends its stream within a bounded number of steps, and the stream is
complete exactly for no event at all and for a single event whose end is marked only after the
subscriber has looked at the flag. -/
theorem progress_complete_iff (cached : List InputEvent) (playing stopRequested : Bool)
    (index : ℤ) (finished : Bool) (sem : ℕ) (labels : List Label) (t : State)
    (hundisturbed : Machine.Guarded step Undisturbed
      (idle (LocalPlayback.initial cached playing stopRequested index) finished sem) labels)
    (hrun : Machine.run step
      (idle (LocalPlayback.initial cached playing stopRequested index) finished sem) labels =
        some t) :
    labels.length ≤ 11 * cached.length + 7 * sem + 24 ∧
      ((∀ a, Undisturbed t a → step t a = none) → t.subscribePc = .returned .ok) ∧
      ∀ status, t.subscribePc = .returned status →
        (t.written = completeProgress cached.length ↔
          cached.length = 0 ∨ (cached.length = 1 ∧ Machine.Guarded step Prompt
            (idle (LocalPlayback.initial cached playing stopRequested index) finished sem)
            labels)) := by
  have hstart := streaming_idle cached playing stopRequested index finished sem
  have hs := streaming_run hstart hundisturbed hrun
  refine ⟨?_, hs.ended_of_stuck, fun status hpc => ?_⟩
  · have hbound := Machine.length_le_of_measure step (μ := State.left cached.length)
      (fun _ _ _ hs hguard h => streaming_step hs hguard h) hstart hundisturbed hrun
    have hleft : (idle (LocalPlayback.initial cached playing stopRequested index) finished
        sem).left cached.length = 7 + (4 * cached.length + 5) + 5 +
          7 * (sem + (cached.length - 0) + 1) := rfl
    omega
  · rw [hs.written_eq_complete_iff hpc]
    have hmarked := (hs.gone status (by rw [hpc]; rfl)).2
    by_cases hprompt : Machine.Guarded step Prompt
        (idle (LocalPlayback.initial cached playing stopRequested index) finished sem) labels
    · have := hasRead_of_prompt hstart nofun hundisturbed hprompt hrun hmarked
      simp only [this, hprompt]
    · have := not_hasRead_of_not_prompt hstart hundisturbed hprompt hrun
      simp only [this, hprompt]

/-- The subscriber registers and waits, playback starts, and the subscriber takes the release of
the first event and asks for the index before the worker is done. -/
def subscribedLabels (rest : ℕ) : List Label :=
  .subscribeCheck .ok :: (List.replicate 3 Label.subscribe ++ .playbackCheck .ok ::
    (List.replicate 3 Label.playback ++ List.replicate 7 Label.worker ++
      List.replicate 3 Label.subscribe ++ List.replicate rest Label.worker ++
        .subscribe :: (List.replicate 2 Label.playback ++ List.replicate 4 Label.subscribe)))

/-- One key press: its index is sent. -/
theorem progress_complete_single :
    let events := LocalPlayback.keyTap.take 1
    ∃ t, Machine.run step (idle (LocalPlayback.initial events false false (-1)) false 0)
        (subscribedLabels 3) = some t ∧
      t.subscribePc = .returned .ok ∧ t.written = completeProgress events.length := by
  intro events
  refine ⟨_, rfl, rfl, ?_⟩
  have hcomplete := progress_complete_iff events false false (-1) false 0 (subscribedLabels 3) _
    (by decide) rfl
  exact (hcomplete.2.2 .ok rfl).mpr (Or.inr ⟨rfl, by decide⟩)

/-- A key tap: the answer to the first release names the second event, and nothing else is
sent. -/
theorem progress_of_key_tap :
    let start := idle (LocalPlayback.initial LocalPlayback.keyTap false false (-1)) false 0
    ∃ labels t, Machine.Guarded step Undisturbed start labels ∧
      Machine.run step start labels = some t ∧ t.subscribePc = .returned .ok ∧
      t.written = [1] ∧ t.written ≠ completeProgress LocalPlayback.keyTap.length :=
  ⟨subscribedLabels 7, _, by decide, rfl, rfl, rfl, by decide⟩

end GrpcPlaybackService

end Evrp
