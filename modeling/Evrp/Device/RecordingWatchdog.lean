import Evrp.Device.GrpcInputListenService

/-!
# The idle watchdog and fresh recordings

The watchdog is documented to cancel a recording after a time without activity.
It asks whether the listener listens, loads the activity time and reads the
clock in separate steps, and the calls act on a recording before they store the
time at which they did. It spares fresh recordings exactly in the runs in which
nothing recent is missing from the loaded time and nothing happens behind it.
-/

namespace Evrp

namespace GrpcInputListenService

open LocalInputListener (Answers)

/-- The watchdog is about to cancel a recording on which a call acted within the idle time
before its clock reading. -/
def KillsFresh (timeoutMs : ℤ) (s : State) : Prop :=
  s.listener.listeningActive = true ∧ ∃ reading, s.watchdog = .cancel reading ∧
    ∃ τ ∈ s.effects, reading - timeoutMs * 1000000 ≤ τ ∧ τ ≤ reading

/-- The watchdog holds nothing that an action at this moment would make wrong. -/
def State.Unarmed (s : State) : Prop :=
  match s.watchdog with
  | .asleep | .load => True
  | .clock last => s.now ≤ last
  | .cancel reading => reading < s.now

/-- When the watchdog loads the activity time, every action on the current recording is covered
by it or older than the idle time; and no call acts while the watchdog holds an older time or a
clock reading of that moment. -/
def guard (timeoutMs : ℤ) (s : State) : Label → Prop
  | .watchdog => s.watchdog = .load →
    ∀ τ ∈ s.effects, τ ≤ s.lastRecordingActivityNs ∨ τ + timeoutMs * 1000000 < s.now
  | .handler i _ answers =>
    match s.handlers[i]? with
    | some h => acts s h answers = true → s.Unarmed
    | none => True
  | .tick _ | .arrive _ _ | .request _ _ _ => True

instance (s : State) : Decidable s.Unarmed :=
  match hpc : s.watchdog with
  | .asleep | .load => isTrue (by simp only [State.Unarmed, hpc])
  | .clock last => decidable_of_iff (s.now ≤ last) (by simp only [State.Unarmed, hpc])
  | .cancel reading => decidable_of_iff (reading < s.now) (by simp only [State.Unarmed, hpc])

instance (timeoutMs : ℤ) (s : State) : ∀ a, Decidable (guard timeoutMs s a)
  | .watchdog => inferInstanceAs (Decidable (_ → ∀ τ ∈ s.effects, _))
  | .handler i _ answers =>
    match hi : s.handlers[i]? with
    | some h => decidable_of_iff (acts s h answers = true → s.Unarmed) (by simp only [guard, hi])
    | none => isTrue (by simp only [guard, hi])
  | .tick _ | .arrive _ _ | .request _ _ _ => isTrue trivial

/-- What the watchdog holds agrees with every action on the current recording. -/
structure Timely (timeoutMs : ℤ) (s : State) : Prop where
  loaded : ∀ last, s.watchdog = .clock last →
    ∀ τ ∈ s.effects, τ ≤ last ∨ τ + timeoutMs * 1000000 < s.now
  armed : ∀ reading, s.watchdog = .cancel reading →
    ∀ τ ∈ s.effects, τ < reading - timeoutMs * 1000000 ∨ reading < τ

theorem timely_initial (timeoutMs start : ℤ) : Timely timeoutMs (initial start) :=
  ⟨nofun, nofun⟩

theorem Timely.not_killsFresh {timeoutMs : ℤ} {s : State} (hs : Timely timeoutMs s) :
    ¬ KillsFresh timeoutMs s := by
  rintro ⟨-, reading, hpc, τ, hτ, hge, hle⟩
  have := hs.armed reading hpc τ hτ
  omega

/-- A move of a call leaves the clock and the watchdog alone and adds at most its own action. -/
theorem handlerMove_effects {s t : State} {i : ℕ} {h : Handler} {answers : Answers}
    (hmove : HandlerMove s i h answers t) :
    t.now = s.now ∧ t.watchdog = s.watchdog ∧
      (∀ τ ∈ t.effects, τ ∈ s.effects ∨ (τ = s.now ∧ acts s h answers = true)) ∧
      (acts s h answers = true → s.now ∈ t.effects) := by
  have hact (hacts : acts s h answers = s.listener.listeningActive) :
      (∀ τ ∈ s.act.effects, τ ∈ s.effects ∨ (τ = s.now ∧ acts s h answers = true)) ∧
        (acts s h answers = true → s.now ∈ s.act.effects) := by
    rw [hacts]
    exact ⟨fun τ hτ => State.mem_effects_act.mp hτ,
      fun hlisten => State.mem_effects_act.mpr (Or.inr ⟨rfl, hlisten⟩)⟩
  have hstill (hacts : acts s h answers = false) (hyes : acts s h answers = true) : False := by
    rw [hacts] at hyes
    exact Bool.noConfusion hyes
  cases hmove with
  | move pc hacts => exact ⟨rfl, rfl, fun τ => Or.inl, fun hyes => (hstill hacts hyes).elim⟩
  | store time pc hacts => exact ⟨rfl, rfl, fun τ => Or.inl, fun hyes => (hstill hacts hyes).elim⟩
  | cancel pc hacts => exact ⟨rfl, rfl, nofun, fun hyes => (hstill hacts hyes).elim⟩
  | stop response hacts => exact ⟨rfl, rfl, nofun, fun hyes => (hstill hacts hyes).elim⟩
  | refused kinds pc hacts =>
    exact ⟨rfl, rfl, fun τ => Or.inl, fun hyes => (hstill hacts hyes).elim⟩
  | started kinds pc hacts =>
    exact ⟨rfl, rfl, fun τ hτ => Or.inr ⟨List.mem_singleton.mp hτ, hacts⟩,
      fun _ => List.mem_singleton_self _⟩
  | act pc hacts => exact ⟨rfl, rfl, (hact hacts).1, (hact hacts).2⟩
  | wait timeoutMs pc hacts => exact ⟨rfl, rfl, (hact hacts).1, (hact hacts).2⟩
  | read response hacts => exact ⟨rfl, rfl, (hact hacts).1, (hact hacts).2⟩

theorem timely_handlerMove {timeoutMs : ℤ} {s t : State} {i : ℕ} {h : Handler} {answers : Answers}
    (hs : Timely timeoutMs s) (hmove : HandlerMove s i h answers t)
    (hguard : acts s h answers = true → s.Unarmed) : Timely timeoutMs t := by
  obtain ⟨hnow, hwatchdog, heffects, -⟩ := handlerMove_effects hmove
  constructor
  · intro last hpc τ hτ
    rw [hwatchdog] at hpc
    rw [hnow]
    rcases heffects τ hτ with hτ | ⟨rfl, hacts⟩
    · exact hs.loaded last hpc τ hτ
    · have hun := hguard hacts
      rw [State.Unarmed, hpc] at hun
      exact Or.inl hun
  · intro reading hpc τ hτ
    rw [hwatchdog] at hpc
    rcases heffects τ hτ with hτ | ⟨rfl, hacts⟩
    · exact hs.armed reading hpc τ hτ
    · have hun := hguard hacts
      rw [State.Unarmed, hpc] at hun
      exact Or.inr hun

theorem timely_watchdogStep {timeoutMs : ℤ} {s : State} (hs : Timely timeoutMs s)
    (hguard : guard timeoutMs s .watchdog) : Timely timeoutMs (watchdogStep timeoutMs s) := by
  cases hpc : s.watchdog <;> simp only [watchdogStep, hpc]
  case asleep =>
    split
    · exact hs
    · exact ⟨fun _ => WatchdogPc.noConfusion, fun _ => WatchdogPc.noConfusion⟩
  case load =>
    refine ⟨fun last hlast => ?_, fun _ => WatchdogPc.noConfusion⟩
    rw [← WatchdogPc.clock.inj hlast]
    exact hguard hpc
  case clock last =>
    have hloaded := hs.loaded last hpc
    split
    · refine ⟨fun _ => WatchdogPc.noConfusion, fun reading hreading τ hτ => ?_⟩
      rw [← WatchdogPc.cancel.inj hreading]
      have := hloaded τ hτ
      omega
    · exact ⟨fun _ => WatchdogPc.noConfusion, fun _ => WatchdogPc.noConfusion⟩
  case cancel reading => exact ⟨fun _ => WatchdogPc.noConfusion, fun _ => WatchdogPc.noConfusion⟩

theorem timely_step {timeoutMs : ℤ} {s t : State} {a : Label} (hs : Timely timeoutMs s)
    (hguard : guard timeoutMs s a) (h : step timeoutMs s a = some t) : Timely timeoutMs t := by
  cases a with
  | tick ns =>
    obtain rfl := Option.some.inj h
    refine ⟨fun last hpc τ hτ => ?_, hs.armed⟩
    have := hs.loaded last hpc τ hτ
    simp only
    omega
  | arrive fd ev =>
    obtain ⟨f, -, h⟩ := Option.bind_eq_some_iff.mp h
    obtain ⟨listener, -, rfl⟩ := Option.map_eq_some_iff.mp h
    exact ⟨hs.loaded, hs.armed⟩
  | request session status request =>
    obtain rfl := Option.some.inj h
    exact ⟨hs.loaded, hs.armed⟩
  | handler i isCancelled answers =>
    obtain ⟨handler, hi, h⟩ := Option.bind_eq_some_iff.mp h
    simp only [guard, hi] at hguard
    exact timely_handlerMove hs (handlerMove_of_step h).2 hguard
  | watchdog =>
    obtain rfl := Option.some.inj h
    exact timely_watchdogStep hs hguard

/-! ## Every other run can kill a fresh recording -/

/-- A clock reading is not of the future. -/
def State.ReadInPast (s : State) : Prop := ∀ reading, s.watchdog = .cancel reading → reading ≤ s.now

theorem readInPast_initial (start : ℤ) : (initial start).ReadInPast := nofun

theorem readInPast_step {timeoutMs : ℤ} {s t : State} {a : Label} (hs : s.ReadInPast)
    (h : step timeoutMs s a = some t) : t.ReadInPast := by
  cases a with
  | tick ns =>
    obtain rfl := Option.some.inj h
    intro reading hpc
    have := hs reading hpc
    simp only
    omega
  | arrive fd ev =>
    obtain ⟨f, -, h⟩ := Option.bind_eq_some_iff.mp h
    obtain ⟨listener, -, rfl⟩ := Option.map_eq_some_iff.mp h
    exact hs
  | request session status request =>
    obtain rfl := Option.some.inj h
    exact hs
  | handler i isCancelled answers =>
    obtain ⟨handler, -, h⟩ := Option.bind_eq_some_iff.mp h
    obtain ⟨hnow, hwatchdog, -, -⟩ := handlerMove_effects (handlerMove_of_step h).2
    intro reading hpc
    rw [hwatchdog] at hpc
    rw [hnow]
    exact hs reading hpc
  | watchdog =>
    obtain rfl := Option.some.inj h
    cases hpc : s.watchdog <;> simp only [watchdogStep, hpc]
    case asleep =>
      split
      · exact hs
      · exact fun _ => WatchdogPc.noConfusion
    case clock last =>
      split
      · intro reading hreading
        exact le_of_eq (WatchdogPc.cancel.inj hreading).symm
      · exact fun _ => WatchdogPc.noConfusion
    all_goals exact fun _ => WatchdogPc.noConfusion

/-- A loaded time that misses a recent action becomes a wrong cancel when the clock reaches the
idle time behind it. -/
theorem exists_killsFresh_of_loaded {timeoutMs : ℤ} {s : State} (hs : s.Sound) {last τ : ℤ}
    (hpc : s.watchdog = .clock last) (hτ : τ ∈ s.effects) (hlast : last < τ)
    (hrecent : s.now ≤ τ + timeoutMs * 1000000) :
    ∃ after u, Machine.run (step timeoutMs) s after = some u ∧ KillsFresh timeoutMs u := by
  have hpast := hs.past τ hτ
  have hlisten := hs.active (List.ne_nil_of_mem hτ)
  -- the first moment at which the loaded time counts as idle
  obtain ⟨ns, hns, hidle, hfirst⟩ : ∃ ns : ℕ, s.now ≤ s.now + ns ∧
      timeoutMs * 1000000 < s.now + ns - last ∧ s.now + ns ≤ τ + timeoutMs * 1000000 := by
    refine ⟨(last + timeoutMs * 1000000 + 1 - s.now).toNat, ?_, ?_, ?_⟩ <;> omega
  refine ⟨[.tick ns, .watchdog],
    { s with now := s.now + ns, watchdog := .cancel (s.now + ns) }, ?_, hlisten, s.now + ns, rfl,
    τ, hτ, ?_, ?_⟩
  · simp only [Machine.run_cons, Machine.run_nil, step, Option.bind_some, watchdogStep, hpc,
      if_pos hidle]
  · omega
  · omega

theorem exists_killsFresh_of_acts {timeoutMs : ℤ} (htimeout : 0 < timeoutMs) {s t : State}
    {i : ℕ} {h : Handler} {answers : Answers} (ht : t.Sound) (hread : s.ReadInPast)
    (hmove : HandlerMove s i h answers t) (hacts : acts s h answers = true)
    (harmed : ¬ s.Unarmed) :
    ∃ after u, Machine.run (step timeoutMs) t after = some u ∧ KillsFresh timeoutMs u := by
  obtain ⟨hnow, hwatchdog, -, hmem⟩ := handlerMove_effects hmove
  have hτ := hmem hacts
  cases hpc : s.watchdog <;> simp only [State.Unarmed, hpc, not_true_eq_false] at harmed
  case clock last =>
    apply exists_killsFresh_of_loaded ht (hwatchdog.trans hpc) hτ (by omega)
    rw [hnow]
    omega
  case cancel reading =>
    have hle := hread reading hpc
    exact ⟨[], t, rfl, ht.active (List.ne_nil_of_mem hτ), reading, hwatchdog.trans hpc, s.now, hτ,
      by omega, by omega⟩

/-- The watchdog never kills a fresh recording if every step meets the guard, and any step that
does not can be continued until it is about to. -/
theorem watchdog_spares_fresh (timeoutMs : ℤ) (htimeout : 0 < timeoutMs) (start : ℤ) :
    (∀ labels t, Machine.Guarded (step timeoutMs) (guard timeoutMs) (initial start) labels →
        Machine.run (step timeoutMs) (initial start) labels = some t →
          ¬ KillsFresh timeoutMs t) ∧
      ∀ labels s a t, Machine.run (step timeoutMs) (initial start) labels = some s →
        step timeoutMs s a = some t → ¬ guard timeoutMs s a →
          ∃ after u, Machine.run (step timeoutMs) t after = some u ∧ KillsFresh timeoutMs u := by
  constructor
  · intro labels t hguarded ht
    have htimely : Timely timeoutMs t :=
      Machine.invariant_guarded_run _ (fun _ _ _ hs hguard h => timely_step hs hguard h)
        (timely_initial timeoutMs start) hguarded ht
    exact htimely.not_killsFresh
  · intro labels s a t hs ht hguard
    have hsound : s.Sound :=
      Machine.invariant_run _ (fun _ _ _ hs h => sound_step hs h) (sound_initial start) hs
    have hread : s.ReadInPast :=
      Machine.invariant_run _ (fun _ _ _ hs h => readInPast_step hs h)
        (readInPast_initial start) hs
    have hsound' := sound_step hsound ht
    cases a with
    | watchdog =>
      obtain ⟨hload, hmissing⟩ := Classical.not_imp.mp hguard
      simp only [not_forall, not_or] at hmissing
      obtain ⟨τ, hτ, hlast, hrecent⟩ := hmissing
      obtain rfl := Option.some.inj ht
      rw [watchdogStep, hload] at hsound' ⊢
      exact exists_killsFresh_of_loaded hsound' rfl hτ (by omega) (by simp only; omega)
    | handler i isCancelled answers =>
      obtain ⟨h, hi, hstep⟩ := Option.bind_eq_some_iff.mp ht
      simp only [guard, hi] at hguard
      obtain ⟨hacts, harmed⟩ := Classical.not_imp.mp hguard
      exact exists_killsFresh_of_acts htimeout hsound' hread (handlerMove_of_step hstep).2 hacts
        harmed
    | _ => exact absurd trivial hguard

/-- Five seconds after the service was built a recording starts. Before its bump it counts as
five seconds idle, and the watchdog, set to one second, is about to cancel it. -/
theorem fresh_recording_killed : ∃ t,
    Machine.run (step 1000) (initial 0) (.tick 5000000000 ::
      (callLabels 1 (.startRecording [.keyboard]) 0 3 ++ List.replicate 3 .watchdog)) = some t ∧
      KillsFresh 1000 t :=
  ⟨_, rfl, rfl, 5000000000, rfl, 5000000000, by decide, by decide, by decide⟩

theorem watchdog_spares_fresh_after_bump : ∃ t,
    Machine.run (step 1000) (initial 0) (.tick 5000000000 ::
      (callLabels 1 (.startRecording [.keyboard]) 0 5 ++ List.replicate 3 .watchdog)) = some t ∧
      t.listener.listeningActive = true ∧ ¬ KillsFresh 1000 t :=
  ⟨_, rfl, rfl, (watchdog_spares_fresh 1000 (by decide) 0).1 (.tick 5000000000 ::
    (callLabels 1 (.startRecording [.keyboard]) 0 5 ++ List.replicate 3 .watchdog)) _
    (by decide) rfl⟩

end GrpcInputListenService

end Evrp
