import Evrp.Device.LocalPlayback
import Evrp.Sdk.SessionRegistry

/-!
# Playback and its progress stream

The Playback call and the SubscribePlayback call of one service share a counting
semaphore and two flags. Playback itself is posted to a worker with one queue,
and so is the reading of the index for a progress message. Each call drains the
semaphore when it starts, and each clears the flag that ends the stream: where
these steps fall among those of the other call decides whether the subscriber is
ever told that playback is over.
-/

namespace Evrp

namespace GrpcPlaybackService

/-- What the service posts to the worker. -/
inductive Task where
  | playback
  | playbackIndex
  deriving DecidableEq, Repr

/-- Where the Playback call stands. -/
inductive PlaybackPc where
  | entry
  | drain
  | reset
  | post
  | waiting
  | mark (result : StatusCode)
  | release (result : StatusCode)
  | returned (status : GrpcStatus)
  deriving DecidableEq, Repr

/-- Where the SubscribePlayback call stands. -/
inductive SubscribePc where
  | entry
  | register
  | drain
  | loop
  | acquire
  | readFinished
  | post
  | waiting
  | write (eventIndex : ℤ)
  | unregister (status : GrpcStatus)
  | returned (status : GrpcStatus)
  deriving DecidableEq, Repr

/-- The service with the playback object behind its worker, one call of each kind, and the
progress messages written so far. -/
structure State where
  inner : LocalPlayback.State
  queue : List Task
  playbackProgressSem : ℕ
  subscriberActive : Bool
  playbackProgressFinished : Bool
  playbackPc : PlaybackPc
  subscribePc : SubscribePc
  written : List ℤ
  deriving DecidableEq, Repr

/-- No subscriber and an empty semaphore. -/
def initial (inner : LocalPlayback.State) (playbackProgressFinished : Bool) : State :=
  ⟨inner, [], 0, false, playbackProgressFinished, .entry, .entry, []⟩

/-- The next step of one of the calls, with the answer of the environment where there is one:
the session check, a cancelled context, a failed write of progress; a step of the task the
worker runs; a step of a stop. -/
inductive Label where
  | playbackCheck (status : GrpcStatus)
  | playback
  | subscribeCheck (status : GrpcStatus)
  | subscribe
  | subscribeCancelled
  | subscribeWriteFails
  | worker
  | workerWriteFails
  | stop
  deriving DecidableEq, Repr

/-- The session check of the Playback call. -/
def playbackCheck (s : State) (status : GrpcStatus) : Option State :=
  match s.playbackPc with
  | .entry =>
    if status.code = .ok then some { s with playbackPc := .drain }
    else some { s with playbackPc := .returned status }
  | _ => none

/-- The status with which the Playback call answers. -/
def playbackStatus (result : StatusCode) : GrpcStatus :=
  if result.code = 0 then .ok
  else ⟨.failedPrecondition, if result.message.isEmpty then "playback failed" else result.message⟩

/-- The steps of the Playback call after its session check. -/
def playbackStep (s : State) : Option State :=
  match s.playbackPc with
  | .entry => none
  | .drain =>
    if s.playbackProgressSem = 0 then some { s with playbackPc := .reset }
    else some { s with playbackProgressSem := s.playbackProgressSem - 1 }
  | .reset => some { s with playbackProgressFinished := false, playbackPc := .post }
  | .post => some { s with queue := s.queue ++ [.playback], playbackPc := .waiting }
  | .waiting => none
  | .mark result =>
    some { s with playbackProgressFinished := true, playbackPc := .release result }
  | .release result => some { s with
      playbackProgressSem := s.playbackProgressSem + 1
      playbackPc := .returned (playbackStatus result) }
  | .returned _ => none

/-- The session check of the SubscribePlayback call. -/
def subscribeCheck (s : State) (status : GrpcStatus) : Option State :=
  match s.subscribePc with
  | .entry =>
    if status.code = .ok then some { s with subscribePc := .register }
    else some { s with subscribePc := .returned status }
  | _ => none

/-- The steps of the SubscribePlayback call after its session check; `acquire` blocks while the
semaphore is empty. -/
def subscribeStep (s : State) : Option State :=
  match s.subscribePc with
  | .entry => none
  | .register =>
    if s.subscriberActive then some { s with
      subscribePc := .returned ⟨.resourceExhausted, "subscribe_playback already active"⟩ }
    else some { s with
      subscriberActive := true
      playbackProgressFinished := false
      subscribePc := .drain }
  | .drain =>
    if s.playbackProgressSem = 0 then some { s with subscribePc := .loop }
    else some { s with playbackProgressSem := s.playbackProgressSem - 1 }
  | .loop => some { s with subscribePc := .acquire }
  | .acquire =>
    if s.playbackProgressSem = 0 then none
    else some { s with
      playbackProgressSem := s.playbackProgressSem - 1
      subscribePc := .readFinished }
  | .readFinished =>
    if s.playbackProgressFinished then some { s with subscribePc := .unregister .ok }
    else some { s with subscribePc := .post }
  | .post => some { s with queue := s.queue ++ [.playbackIndex], subscribePc := .waiting }
  | .waiting => none
  | .write eventIndex =>
    some { s with written := s.written ++ [eventIndex], subscribePc := .loop }
  | .unregister status =>
    some { s with subscriberActive := false, subscribePc := .returned status }
  | .returned _ => none

/-- The loop finds its context cancelled. -/
def subscribeCancelled (s : State) : Option State :=
  match s.subscribePc with
  | .loop => some { s with subscribePc := .unregister ⟨.cancelled, "cancelled"⟩ }
  | _ => none

/-- The progress message cannot be written. -/
def subscribeWriteFails (s : State) : Option State :=
  match s.subscribePc with
  | .write _ => some { s with subscribePc := .unregister ⟨.unknown, "progress write failed"⟩ }
  | _ => none

/-- The worker runs the task at the head of its queue; each progress of playback releases the
semaphore, and the call that posted the task resumes when it is done. -/
def workerStep (s : State) (a : LocalPlayback.Label) : Option State :=
  match s.queue with
  | [] => none
  | .playback :: queue => (LocalPlayback.step s.inner a).map fun inner =>
    let playbackProgressSem := s.playbackProgressSem + (inner.progress - s.inner.progress)
    match inner.pc with
    | .returned result => { s with
        inner := inner
        queue := queue
        playbackProgressSem := playbackProgressSem
        playbackPc := .mark result }
    | _ => { s with inner := inner, playbackProgressSem := playbackProgressSem }
  | .playbackIndex :: queue =>
    some { s with queue := queue, subscribePc := .write s.inner.currentEventIndex }

def step (s : State) : Label → Option State
  | .playbackCheck status => playbackCheck s status
  | .playback => playbackStep s
  | .subscribeCheck status => subscribeCheck s status
  | .subscribe => subscribeStep s
  | .subscribeCancelled => subscribeCancelled s
  | .subscribeWriteFails => subscribeWriteFails s
  | .worker => workerStep s .play
  | .workerWriteFails => workerStep s .playWriteFails
  | .stop => (LocalPlayback.step s.inner .stop).map fun inner => { s with inner := inner }

/-- The Playback call has returned and the subscriber waits for a release that never comes. -/
def State.Stranded (s : State) : Prop :=
  (∃ status, s.playbackPc = .returned status) ∧ s.subscribePc = .acquire ∧
    s.playbackProgressSem = 0

/-- The Playback call has set the flag that ends the stream. -/
def PlaybackPc.marked : PlaybackPc → Bool
  | .release _ | .returned _ => true
  | _ => false

def PlaybackPc.isReturned : PlaybackPc → Bool
  | .returned _ => true
  | _ => false

/-- The subscriber has not taken anything from the semaphore for a message yet. -/
def SubscribePc.starting : SubscribePc → Bool
  | .entry | .register | .drain | .loop | .acquire => true
  | _ => false

/-- The subscriber is registered and may still wait. -/
def SubscribePc.listening : SubscribePc → Bool
  | .drain | .loop | .acquire | .readFinished | .post | .waiting | .write _ => true
  | _ => false

/-- The subscriber is past its drain and will acquire again. -/
def SubscribePc.looping : SubscribePc → Bool
  | .loop | .acquire | .post | .waiting | .write _ => true
  | _ => false

/-- The subscriber has left its loop. -/
def SubscribePc.gone : SubscribePc → Bool
  | .unregister _ | .returned _ => true
  | _ => false

/-- What holds in every run: the subscriber waits for at most one index, it is not registered
before it registers, and before the session check of the Playback call nothing was released. -/
structure State.Coherent (s : State) : Prop where
  posted : s.queue.count .playbackIndex = if s.subscribePc = .waiting then 1 else 0
  unregistered : s.subscribePc = .entry ∨ s.subscribePc = .register → s.subscriberActive = false
  quiet : s.playbackPc = .entry → s.playbackProgressSem = 0 ∧ s.queue = [] ∧
    (s.subscribePc.starting = true ∨ s.subscribePc.gone = true)

theorem coherent_initial (inner : LocalPlayback.State) (finished : Bool) :
    (initial inner finished).Coherent :=
  ⟨rfl, fun _ => rfl, fun _ => ⟨rfl, rfl, Or.inl rfl⟩⟩

theorem coherent_playbackStep {s t : State} (hs : s.Coherent) (h : playbackStep s = some t) :
    t.Coherent := by
  obtain ⟨inner, queue, sem, active, finished, playbackPc, subscribePc, written⟩ := s
  obtain ⟨hposted, hunreg, hquiet⟩ := hs
  cases playbackPc <;> simp only [playbackStep, Option.some.injEq, reduceCtorEq] at h
  case drain =>
    split at h
    all_goals
      obtain rfl := Option.some.inj h
      exact ⟨hposted, hunreg, nofun⟩
  case post =>
    subst h
    refine ⟨?_, hunreg, nofun⟩
    rw [List.count_append]
    exact hposted
  all_goals
    subst h
    exact ⟨hposted, hunreg, nofun⟩

/-- A subscriber that has acquired something knows that the Playback call was admitted. -/
theorem State.Coherent.playbackPc_ne_entry {s : State} (hs : s.Coherent)
    (hstarting : s.subscribePc.starting = false) (hgone : s.subscribePc.gone = false) :
    s.playbackPc ≠ .entry := by
  intro hentry
  obtain ⟨-, -, hsub⟩ := hs.quiet hentry
  rw [hstarting, hgone] at hsub
  simp at hsub

/-- A subscriber that does not wait for an index can leave its loop. -/
theorem State.Coherent.leave {s : State} (hs : s.Coherent) (hpc : s.subscribePc ≠ .waiting)
    {pc : SubscribePc} (hgone : pc.gone = true) : { s with subscribePc := pc }.Coherent := by
  have hposted := hs.posted
  rw [if_neg hpc] at hposted
  have hnot : pc ≠ .waiting ∧ pc ≠ .entry ∧ pc ≠ .register := by
    refine ⟨?_, ?_, ?_⟩ <;> rintro rfl <;> cases hgone
  refine ⟨hposted.trans (if_neg hnot.1).symm, ?_, ?_⟩
  · rintro (h | h)
    · exact absurd h hnot.2.1
    · exact absurd h hnot.2.2
  · intro he
    obtain ⟨hsem, hqueue, -⟩ := hs.quiet he
    exact ⟨hsem, hqueue, Or.inr hgone⟩

theorem coherent_subscribeStep {s t : State} (hs : s.Coherent) (h : subscribeStep s = some t) :
    t.Coherent := by
  have hlater := hs.playbackPc_ne_entry
  obtain ⟨inner, queue, sem, active, finished, playbackPc, subscribePc, written⟩ := s
  obtain ⟨hposted, hunreg, hquiet⟩ := hs
  cases subscribePc <;> simp only [subscribeStep, Option.some.injEq, reduceCtorEq] at h
  case register =>
    split at h
    · obtain rfl := Option.some.inj h
      exact ⟨hposted, nofun, fun he => ⟨(hquiet he).1, (hquiet he).2.1, Or.inr rfl⟩⟩
    · obtain rfl := Option.some.inj h
      exact ⟨hposted, nofun, fun he => ⟨(hquiet he).1, (hquiet he).2.1, Or.inl rfl⟩⟩
  case drain =>
    split at h
    · obtain rfl := Option.some.inj h
      exact ⟨hposted, nofun, fun he => ⟨(hquiet he).1, (hquiet he).2.1, Or.inl rfl⟩⟩
    · rename_i hsem
      obtain rfl := Option.some.inj h
      exact ⟨hposted, nofun, fun he => absurd (hquiet he).1 hsem⟩
  case loop =>
    subst h
    exact ⟨hposted, nofun, fun he => ⟨(hquiet he).1, (hquiet he).2.1, Or.inl rfl⟩⟩
  case acquire =>
    split at h
    · cases h
    · rename_i hsem
      obtain rfl := Option.some.inj h
      exact ⟨hposted, nofun, fun he => absurd (hquiet he).1 hsem⟩
  case readFinished =>
    have hentry := hlater rfl rfl
    split at h
    all_goals
      obtain rfl := Option.some.inj h
      exact ⟨hposted, nofun, fun he => absurd he hentry⟩
  case post =>
    have hentry := hlater rfl rfl
    subst h
    refine ⟨?_, nofun, fun he => absurd he hentry⟩
    rw [List.count_append, hposted]
    rfl
  case write eventIndex =>
    have hentry := hlater rfl rfl
    subst h
    exact ⟨hposted, nofun, fun he => absurd he hentry⟩
  case unregister status =>
    subst h
    exact ⟨hposted, nofun, fun he => ⟨(hquiet he).1, (hquiet he).2.1, Or.inr rfl⟩⟩

theorem coherent_workerStep {s t : State} {a : LocalPlayback.Label} (hs : s.Coherent)
    (h : workerStep s a = some t) : t.Coherent := by
  obtain ⟨inner, queue, sem, active, finished, playbackPc, subscribePc, written⟩ := s
  obtain ⟨hposted, hunreg, hquiet⟩ := hs
  match queue, hposted, hquiet with
  | .playback :: queue, hposted, hquiet =>
    have hentry : playbackPc ≠ .entry := fun he => nomatch (hquiet he).2.1
    obtain ⟨inner', -, rfl⟩ := Option.map_eq_some_iff.mp h
    dsimp only
    split
    · refine ⟨?_, hunreg, nofun⟩
      simpa using hposted
    · exact ⟨hposted, hunreg, fun he => absurd he hentry⟩
  | .playbackIndex :: queue, hposted, hquiet =>
    have hentry : playbackPc ≠ .entry := fun he => nomatch (hquiet he).2.1
    obtain rfl := Option.some.inj h
    refine ⟨?_, nofun, fun he => absurd he hentry⟩
    simp only [List.count_cons_self] at hposted
    simp only [reduceCtorEq, if_false]
    split at hposted <;> omega

theorem coherent_step {s t : State} {a : Label} (hs : s.Coherent) (h : step s a = some t) :
    t.Coherent := by
  cases a with
  | playback => exact coherent_playbackStep hs h
  | subscribe => exact coherent_subscribeStep hs h
  | worker => exact coherent_workerStep hs h
  | workerWriteFails => exact coherent_workerStep hs h
  | stop =>
    obtain ⟨inner, -, rfl⟩ := Option.map_eq_some_iff.mp h
    exact ⟨hs.posted, hs.unregistered, hs.quiet⟩
  | playbackCheck status =>
    simp only [step, playbackCheck] at h
    split at h
    · split at h
      all_goals
        obtain rfl := Option.some.inj h
        exact ⟨hs.posted, hs.unregistered, nofun⟩
    · cases h
  | subscribeCheck status =>
    simp only [step, subscribeCheck] at h
    split at h
    · rename_i hpc
      split at h
      · obtain rfl := Option.some.inj h
        have hposted := hs.posted
        rw [hpc] at hposted
        refine ⟨hposted, fun _ => hs.unregistered (Or.inl hpc), fun he => ?_⟩
        exact ⟨(hs.quiet he).1, (hs.quiet he).2.1, Or.inl rfl⟩
      · obtain rfl := Option.some.inj h
        exact hs.leave (by simp [hpc]) rfl
    · cases h
  | subscribeCancelled =>
    simp only [step, subscribeCancelled] at h
    split at h
    · rename_i hpc
      obtain rfl := Option.some.inj h
      exact hs.leave (by simp [hpc]) rfl
    · cases h
  | subscribeWriteFails =>
    simp only [step, subscribeWriteFails] at h
    split at h
    · rename_i eventIndex hpc
      obtain rfl := Option.some.inj h
      exact hs.leave (by simp [hpc]) rfl
    · cases h

/-- The steps after which the subscriber can still be told of the end: it registers before the
flag is set, drains before the last release, and the Playback call is admitted if the subscriber
still listens. -/
def guard (s : State) : Label → Prop
  | .playbackCheck status => status.code = .ok ∨ s.subscribePc.gone = true
  | .subscribe =>
    (s.subscribePc = .register → s.playbackPc.marked = false) ∧
      (s.subscribePc = .drain → s.playbackPc.isReturned = false)
  | _ => True

instance (s : State) : ∀ a, Decidable (guard s a)
  | .playbackCheck _ => inferInstanceAs (Decidable (_ ∨ _))
  | .subscribe => inferInstanceAs (Decidable ((_ → _) ∧ (_ → _)))
  | .playback | .subscribeCheck _ | .subscribeCancelled | .subscribeWriteFails | .worker
  | .workerWriteFails | .stop => isTrue trivial

/-- Once the flag is set the subscriber sees it, and after the last release there is something
left to acquire. -/
structure State.Notified (s : State) : Prop where
  coherent : s.Coherent
  finished : s.playbackPc.marked = true → s.subscribePc.listening = true →
    s.playbackProgressFinished = true
  released : s.playbackPc.isReturned = true → s.subscribePc.looping = true →
    0 < s.playbackProgressSem

theorem notified_initial (inner : LocalPlayback.State) (finished : Bool) :
    (initial inner finished).Notified :=
  ⟨coherent_initial inner finished, nofun, nofun⟩

theorem State.Notified.not_stranded {s : State} (hs : s.Notified) : ¬ s.Stranded := by
  rintro ⟨⟨status, hpc⟩, hsub, hsem⟩
  have hpos := hs.released (by rw [hpc]; rfl) (by rw [hsub]; rfl)
  exact absurd hsem (Nat.ne_of_gt hpos)

theorem PlaybackPc.marked_of_isReturned {pc : PlaybackPc} (h : pc.isReturned = true) :
    pc.marked = true := by
  cases pc <;> first | rfl | cases h

theorem notified_playbackStep {s t : State} (hs : s.Notified) (h : playbackStep s = some t) :
    t.Notified := by
  have hcoherent := coherent_playbackStep hs.coherent h
  obtain ⟨inner, queue, sem, active, finished, playbackPc, subscribePc, written⟩ := s
  obtain ⟨-, hfinished, hreleased⟩ := hs
  cases playbackPc <;> simp only [playbackStep, Option.some.injEq, reduceCtorEq] at h
  case drain =>
    split at h
    all_goals
      obtain rfl := Option.some.inj h
      exact ⟨hcoherent, nofun, nofun⟩
  case mark result =>
    subst h
    exact ⟨hcoherent, fun _ _ => rfl, nofun⟩
  case release result =>
    subst h
    exact ⟨hcoherent, hfinished, fun _ _ => Nat.succ_pos sem⟩
  all_goals
    subst h
    exact ⟨hcoherent, nofun, nofun⟩

theorem notified_subscribeStep {s t : State} (hs : s.Notified) (hguard : guard s .subscribe)
    (h : subscribeStep s = some t) : t.Notified := by
  have hcoherent := coherent_subscribeStep hs.coherent h
  obtain ⟨inner, queue, sem, active, finished, playbackPc, subscribePc, written⟩ := s
  obtain ⟨-, hfinished, hreleased⟩ := hs
  obtain ⟨hregister, hdrain⟩ := hguard
  cases subscribePc <;> simp only [subscribeStep, Option.some.injEq, reduceCtorEq] at h
  case register =>
    have hnot := hregister rfl
    split at h
    · obtain rfl := Option.some.inj h
      exact ⟨hcoherent, nofun, nofun⟩
    · obtain rfl := Option.some.inj h
      exact ⟨hcoherent, fun hm => absurd hm (by simp [hnot]), nofun⟩
  case drain =>
    have hnot := hdrain rfl
    split at h
    all_goals
      obtain rfl := Option.some.inj h
      exact ⟨hcoherent, hfinished, fun hr => absurd hr (by simp [hnot])⟩
  case acquire =>
    split at h
    · cases h
    · obtain rfl := Option.some.inj h
      exact ⟨hcoherent, hfinished, nofun⟩
  case readFinished =>
    split at h
    · obtain rfl := Option.some.inj h
      exact ⟨hcoherent, nofun, nofun⟩
    · rename_i hfalse
      obtain rfl := Option.some.inj h
      -- after the last release the flag is set, so the stream ends here
      refine ⟨hcoherent, fun hm hl => absurd (hfinished hm rfl) hfalse, fun hr _ => ?_⟩
      exact absurd (hfinished (PlaybackPc.marked_of_isReturned hr) rfl) hfalse
  case unregister status =>
    subst h
    exact ⟨hcoherent, nofun, nofun⟩
  all_goals
    subst h
    exact ⟨hcoherent, hfinished, hreleased⟩

theorem notified_workerStep {s t : State} {a : LocalPlayback.Label} (hs : s.Notified)
    (h : workerStep s a = some t) : t.Notified := by
  have hcoherent := coherent_workerStep hs.coherent h
  obtain ⟨inner, queue, sem, active, finished, playbackPc, subscribePc, written⟩ := s
  obtain ⟨⟨hposted, -, -⟩, hfinished, hreleased⟩ := hs
  match queue, hposted with
  | .playback :: queue, _ =>
    obtain ⟨inner', -, rfl⟩ := Option.map_eq_some_iff.mp h
    dsimp only at hcoherent ⊢
    split at hcoherent
    · exact ⟨hcoherent, nofun, nofun⟩
    · exact ⟨hcoherent, hfinished, fun hr hl => Nat.add_pos_left (hreleased hr hl) _⟩
  | .playbackIndex :: queue, hposted =>
    obtain rfl := Option.some.inj h
    have hwaiting : subscribePc = .waiting := by
      by_contra hne
      simp [hne] at hposted
    subst hwaiting
    exact ⟨hcoherent, fun hm _ => hfinished hm rfl, fun hr _ => hreleased hr rfl⟩

theorem notified_step {s t : State} {a : Label} (hs : s.Notified) (hguard : guard s a)
    (h : step s a = some t) : t.Notified := by
  have hcoherent := coherent_step hs.coherent h
  cases a with
  | playback => exact notified_playbackStep hs h
  | subscribe => exact notified_subscribeStep hs hguard h
  | worker => exact notified_workerStep hs h
  | workerWriteFails => exact notified_workerStep hs h
  | stop =>
    obtain ⟨inner, -, rfl⟩ := Option.map_eq_some_iff.mp h
    exact ⟨hcoherent, hs.finished, hs.released⟩
  | playbackCheck status =>
    simp only [step, playbackCheck] at h
    split at h
    · split at h
      · obtain rfl := Option.some.inj h
        exact ⟨hcoherent, nofun, nofun⟩
      · rename_i hrefused
        obtain rfl := Option.some.inj h
        have hgone := hguard.resolve_left hrefused
        refine ⟨hcoherent, fun _ hl => ?_, fun _ hl => ?_⟩
        all_goals
          revert hgone hl
          cases s.subscribePc <;>
            simp [SubscribePc.gone, SubscribePc.listening, SubscribePc.looping]
    · cases h
  | subscribeCheck status =>
    simp only [step, subscribeCheck] at h
    split at h
    · split at h
      all_goals
        obtain rfl := Option.some.inj h
        exact ⟨hcoherent, nofun, nofun⟩
    · cases h
  | subscribeCancelled =>
    simp only [step, subscribeCancelled] at h
    split at h
    · obtain rfl := Option.some.inj h
      exact ⟨hcoherent, nofun, nofun⟩
    · cases h
  | subscribeWriteFails =>
    simp only [step, subscribeWriteFails] at h
    split at h
    · obtain rfl := Option.some.inj h
      exact ⟨hcoherent, nofun, nofun⟩
    · cases h

/-- Some continuation leaves the subscriber stranded. -/
def CanStrand (s : State) : Prop :=
  ∃ labels t, Machine.run step s labels = some t ∧ t.Stranded

theorem CanStrand.of_step {s t : State} {a : Label} (h : step s a = some t) (ht : CanStrand t) :
    CanStrand s := by
  obtain ⟨labels, u, hu, hstranded⟩ := ht
  refine ⟨a :: labels, u, ?_, hstranded⟩
  rw [Machine.run_cons, h]
  exact hu

section Strand

variable {s : State} {status : GrpcStatus} (hreturned : s.playbackPc = .returned status)
include hreturned

theorem canStrand_of_acquire (hsub : s.subscribePc = .acquire) (hsem : s.playbackProgressSem = 0) :
    CanStrand s :=
  ⟨[], s, rfl, ⟨status, hreturned⟩, hsub, hsem⟩

theorem canStrand_of_loop (hsub : s.subscribePc = .loop) (hsem : s.playbackProgressSem = 0) :
    CanStrand s := by
  have hstep : step s .subscribe = some { s with subscribePc := .acquire } := by
    rw [step, subscribeStep, hsub]
  exact .of_step hstep (canStrand_of_acquire hreturned rfl hsem)

/-- A subscriber that drains after the last release takes it away. -/
theorem canStrand_of_drain (hsub : s.subscribePc = .drain) : CanStrand s := by
  induction hsem : s.playbackProgressSem generalizing s with
  | zero =>
    have hstep : step s .subscribe = some { s with subscribePc := .loop } := by
      rw [step, subscribeStep, hsub]
      exact if_pos hsem
    exact .of_step hstep (canStrand_of_loop hreturned rfl hsem)
  | succ n ih =>
    have hstep : step s .subscribe = some { s with playbackProgressSem := n } := by
      rw [step, subscribeStep, hsub]
      refine (if_neg ?_).trans ?_
      · rw [hsem]
        exact Nat.succ_ne_zero n
      · rw [hsem, Nat.add_sub_cancel]
    exact .of_step hstep (ih hreturned hsub rfl)

theorem canStrand_of_register (hsub : s.subscribePc = .register)
    (hactive : s.subscriberActive = false) : CanStrand s := by
  have hstep : step s .subscribe = some { s with
      subscriberActive := true
      playbackProgressFinished := false
      subscribePc := .drain } := by
    rw [step, subscribeStep, hsub]
    apply if_neg
    rw [hactive]
    exact Bool.false_ne_true
  exact .of_step hstep (canStrand_of_drain hreturned rfl)

theorem canStrand_of_entry (hsub : s.subscribePc = .entry) (hactive : s.subscriberActive = false) :
    CanStrand s := by
  have hstep : step s (.subscribeCheck .ok) = some { s with subscribePc := .register } := by
    rw [step, subscribeCheck, hsub]
    rfl
  exact .of_step hstep (canStrand_of_register hreturned rfl hactive)

end Strand

/-- A refused Playback call leaves the subscriber without a release. -/
theorem canStrand_of_refused {s t : State} {status : GrpcStatus} (hs : s.Coherent)
    (h : step s (.playbackCheck status) = some t) (hrefused : status.code ≠ .ok)
    (hgone : s.subscribePc.gone = false) : CanStrand t := by
  simp only [step, playbackCheck] at h
  split at h
  · rename_i hentry
    rw [if_neg hrefused] at h
    obtain rfl := Option.some.inj h
    obtain ⟨hsem, -, hsub⟩ := hs.quiet hentry
    rw [hgone] at hsub
    cases hpc : s.subscribePc with
    | entry => exact canStrand_of_entry rfl rfl (hs.unregistered (Or.inl hpc))
    | register => exact canStrand_of_register rfl rfl (hs.unregistered (Or.inr hpc))
    | drain => exact canStrand_of_drain rfl rfl
    | loop => exact canStrand_of_loop rfl rfl hsem
    | acquire => exact canStrand_of_acquire rfl rfl hsem
    | _ => simp [hpc, SubscribePc.starting] at hsub
  · cases h

/-- A subscriber that registers once the flag is set clears it for good. -/
theorem canStrand_of_late_register {s t : State} (hs : s.Coherent)
    (h : step s .subscribe = some t) (hsub : s.subscribePc = .register)
    (hmarked : s.playbackPc.marked = true) : CanStrand t := by
  simp only [step, subscribeStep, hsub, hs.unregistered (Or.inr hsub), Bool.false_eq_true,
    if_false, Option.some.injEq] at h
  subst h
  cases hpc : s.playbackPc with
  | release result =>
    exact .of_step (a := .playback) rfl (canStrand_of_drain rfl rfl)
  | returned status => exact canStrand_of_drain rfl rfl
  | _ => simp [hpc, PlaybackPc.marked] at hmarked

theorem canStrand_of_late_drain {s t : State} (h : step s .subscribe = some t)
    (hsub : s.subscribePc = .drain) (hreturned : s.playbackPc.isReturned = true) :
    CanStrand t := by
  obtain ⟨status, hpc⟩ : ∃ status, s.playbackPc = .returned status := by
    cases hpc : s.playbackPc <;> simp [hpc, PlaybackPc.isReturned] at hreturned ⊢
  simp only [step, subscribeStep, hsub] at h
  split at h
  · rename_i hsem
    obtain rfl := Option.some.inj h
    exact canStrand_of_loop hpc rfl hsem
  · obtain rfl := Option.some.inj h
    exact canStrand_of_drain hpc rfl

/-- The subscriber is never stranded if every step meets the guard, and any step that does not
can be continued until it is. -/
theorem not_stranded_of_guarded (inner : LocalPlayback.State) (finished : Bool) :
    (∀ labels t, Machine.Guarded step guard (initial inner finished) labels →
        Machine.run step (initial inner finished) labels = some t → ¬ t.Stranded) ∧
      ∀ labels s a t, Machine.run step (initial inner finished) labels = some s →
        step s a = some t → ¬ guard s a →
          ∃ after u, Machine.run step t after = some u ∧ u.Stranded := by
  constructor
  · intro labels t hguarded ht
    have hnotified : t.Notified :=
      Machine.invariant_guarded_run step (fun _ _ _ hs hguard h => notified_step hs hguard h)
        (notified_initial inner finished) hguarded ht
    exact hnotified.not_stranded
  · intro labels s a t hs ht hguard
    have hcoherent : s.Coherent :=
      Machine.invariant_run step (fun _ _ _ hs h => coherent_step hs h)
        (coherent_initial inner finished) hs
    cases a with
    | playbackCheck status =>
      obtain ⟨hrefused, hgone⟩ := not_or.mp hguard
      exact canStrand_of_refused hcoherent ht hrefused (Bool.eq_false_iff.mpr hgone)
    | subscribe =>
      rcases not_and_or.mp hguard with hregister | hdrain
      · obtain ⟨hsub, hmarked⟩ := Classical.not_imp.mp hregister
        exact canStrand_of_late_register hcoherent ht hsub (Bool.not_eq_false _ ▸ hmarked)
      · obtain ⟨hsub, hreturned⟩ := Classical.not_imp.mp hdrain
        exact canStrand_of_late_drain ht hsub (Bool.not_eq_false _ ▸ hreturned)
    | _ => exact absurd trivial hguard

/-- The playback object with a key tap uploaded. -/
def keyTapPlayback : LocalPlayback.State :=
  LocalPlayback.initial LocalPlayback.keyTap false false (-1)

/-- The Playback call from its admission to its return. -/
def playbackLabels : List Label :=
  .playbackCheck .ok :: (List.replicate 3 Label.playback ++ List.replicate 13 Label.worker ++
    List.replicate 2 Label.playback)

/-- The subscription is handled after playback has ended: the subscriber drains every release,
the last one included, and waits. -/
theorem stranded_after_short_playback : ∃ t,
    Machine.run step (initial keyTapPlayback false)
      (playbackLabels ++ .subscribeCheck .ok :: List.replicate 6 .subscribe) = some t ∧
      t.Stranded :=
  ⟨_, rfl, ⟨.ok, rfl⟩, rfl, rfl⟩

theorem not_stranded_of_guarded_early_subscriber : ∃ t,
    Machine.run step (initial keyTapPlayback false)
      (.subscribeCheck .ok :: (List.replicate 3 .subscribe ++ playbackLabels)) = some t ∧
      ¬ t.Stranded :=
  ⟨_, rfl, (not_stranded_of_guarded keyTapPlayback false).1
    (.subscribeCheck .ok :: (List.replicate 3 .subscribe ++ playbackLabels)) _ (by decide) rfl⟩

end GrpcPlaybackService

end Evrp
