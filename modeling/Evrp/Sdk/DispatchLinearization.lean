import Evrp.Lib.Sequential
import Evrp.Sdk.SyncDispatchQueue

/-!
# Posted calls take effect one after the other

The worker runs the functions of the calls one at a time, so an object behind it
behaves as if every call ran alone at one moment between its start and its
return. The order is that of the posts; it contains the shutdown with its final
task as one more operation.
-/

namespace Evrp

namespace SyncDispatchQueue

universe u

variable {ι σ : Type*} {R : ι → Type u}

/-- What a handler returns. -/
def Handler.Result (R : ι → Type u) : Handler ι → Type u
  | .task i => R i
  | .shutdown => PUnit

/-- What a handler does to the object. -/
def Handler.effect (fn : ∀ i, σ → R i × σ) (finalTask : Option (σ → σ)) :
    ∀ h : Handler ι, σ → h.Result R × σ
  | .task i => fn i
  | .shutdown => fun object => (⟨⟩, runFinalTask finalTask object)

/-- The handlers whose effect is in the object, in order. -/
def State.completed (s : State R σ) : List (Handler ι) :=
  match s.worker with
  | .running _ => s.history.dropLast
  | _ => s.history

variable {fn : ∀ i, σ → R i × σ} {finalTask : Option (σ → σ)}

open Sequential Handler

/-- The object and the results are those of the completed handlers in order. -/
structure State.Linear (fn : ∀ i, σ → R i × σ) (finalTask : Option (σ → σ)) (start : σ)
    (s : State R σ) : Prop where
  object : s.object = after (effect fn finalTask) start s.completed
  futures : ∀ i value, s.futures i = some value →
    Answers (effect fn finalTask) start s.completed (.task i) value

/-- A step that touches neither the object nor the worker. -/
theorem State.Linear.frame {start : σ} {s t : State R σ} (hs : s.Linear fn finalTask start)
    (hobject : t.object = s.object) (hfutures : t.futures = s.futures)
    (hcompleted : t.completed = s.completed) : t.Linear fn finalTask start where
  object := by rw [hobject, hcompleted, hs.object]
  futures := by
    rw [hfutures, hcompleted]
    exact hs.futures

theorem linear_initial (start : σ) : (initial start : State R σ).Linear fn finalTask start where
  object := rfl
  futures i value h := by cases h

variable [DecidableEq ι] [∀ i, Inhabited (R i)]

/-- The handler that the worker finishes is the next of the order. -/
theorem linear_workerStep {start : σ} {s t : State R σ} (hs : s.Linear fn finalTask start)
    (hcoherent : s.Coherent) (h : workerStep fn finalTask s = some t) :
    t.Linear fn finalTask start := by
  obtain ⟨current, queue, worker, done, barrier, calls, futures, pc, history⟩ := s
  cases worker with
  | idle =>
    cases queue with
    | nil => cases h
    | cons handler queue =>
      cases handler with
      | task i =>
        obtain rfl := Option.some.inj h
        exact hs.frame rfl rfl List.dropLast_concat
      | shutdown =>
        obtain rfl := Option.some.inj h
        exact hs.frame rfl rfl rfl
  | running i =>
    obtain rfl := Option.some.inj h
    have hlast := (hcoherent.running i rfl).2
    have hhistory : history = history.dropLast ++ [.task i] :=
      (List.dropLast_append_getLast? _ hlast).symm
    obtain ⟨hobject, hfutures⟩ := hs
    simp only [State.completed] at hobject hfutures
    constructor
    · simp only [State.completed]
      rw [hhistory, after_concat, ← hobject]
      rfl
    · intro j value hvalue
      simp only [State.completed] at hvalue ⊢
      rw [hhistory]
      by_cases hj : j = i
      · subst hj
        rw [Function.update_self] at hvalue
        obtain rfl := Option.some.inj hvalue
        rw [hobject]
        exact answers_concat start history.dropLast (.task j)
      · rw [Function.update_of_ne hj] at hvalue
        exact (hfutures j value hvalue).append _
  | finalTask =>
    obtain rfl := Option.some.inj h
    obtain ⟨hobject, hfutures⟩ := hs
    simp only [State.completed] at hobject hfutures
    constructor
    · simp only [State.completed]
      rw [after_concat, ← hobject]
      rfl
    · exact fun j value hvalue => (hfutures j value hvalue).append _
  | store =>
    obtain rfl := Option.some.inj h
    exact hs.frame rfl rfl rfl
  | setValue =>
    obtain rfl := Option.some.inj h
    exact hs.frame rfl rfl rfl

theorem linear_step {start : σ} {s t : State R σ} {a : Label ι}
    (hs : s.Linear fn finalTask start) (hcoherent : s.Coherent)
    (h : step fn finalTask s a = some t) : t.Linear fn finalTask start := by
  cases a with
  | check i =>
    obtain ⟨-, rfl⟩ := checkStep_eq h
    exact hs.frame rfl rfl rfl
  | post i =>
    obtain ⟨-, rfl⟩ := postStep_eq h
    exact hs.frame rfl rfl rfl
  | wait i =>
    obtain ⟨value, -, -, rfl⟩ := waitStep_eq h
    exact hs.frame rfl rfl rfl
  | shutdownCheck =>
    obtain ⟨-, rfl⟩ := shutdownCheckStep_eq h
    exact hs.frame rfl rfl rfl
  | shutdownPost =>
    obtain ⟨-, rfl⟩ := shutdownPostStep_eq h
    exact hs.frame rfl rfl rfl
  | shutdownWait =>
    obtain ⟨-, -, rfl⟩ := shutdownWaitStep_eq h
    exact hs.frame rfl rfl rfl
  | worker => exact linear_workerStep hs hcoherent h

/-- Nothing that has been posted is taken back. -/
theorem order_prefix_run {s t : State R σ} {labels : List (Label ι)}
    (h : Machine.run (step fn finalTask) s labels = some t) : s.order <+: t.order := by
  refine Machine.invariant_run (I := fun u => s.order <+: u.order) _ ?_ List.prefix_rfl h
  intro u a v hu hstep
  rcases order_step hstep with horder | ⟨i, -, horder⟩ | ⟨-, horder⟩
  · exact horder ▸ hu
  · exact hu.trans (horder ▸ List.prefix_append _ _)
  · exact hu.trans (horder ▸ List.prefix_append _ _)

/-- A call that returns without a result of its function has found the flag of the shutdown
set. -/
def State.Refused (s : State R σ) : Prop :=
  ∀ i value, s.calls i = .returned value → s.futures i = none → .shutdown ∈ s.history

omit [∀ i, Inhabited (R i)] in
/-- The worker adds to the history and to the results. -/
theorem history_workerStep {s t : State R σ} (h : workerStep fn finalTask s = some t) :
    s.history <+: t.history ∧ t.calls = s.calls ∧
      ∀ i, t.futures i = none → s.futures i = none := by
  obtain ⟨object, queue, worker, done, barrier, calls, futures, pc, history⟩ := s
  cases worker with
  | idle =>
    cases queue with
    | nil => cases h
    | cons handler queue =>
      cases handler with
      | task i =>
        obtain rfl := Option.some.inj h
        exact ⟨List.prefix_append _ _, rfl, fun _ => id⟩
      | shutdown =>
        obtain rfl := Option.some.inj h
        exact ⟨List.prefix_rfl, rfl, fun _ => id⟩
  | running i =>
    obtain rfl := Option.some.inj h
    refine ⟨List.prefix_rfl, rfl, fun j hj => ?_⟩
    by_cases heq : j = i
    · subst heq
      simp at hj
    · simpa [heq] using hj
  | finalTask =>
    obtain rfl := Option.some.inj h
    exact ⟨List.prefix_append _ _, rfl, fun _ => id⟩
  | store =>
    obtain rfl := Option.some.inj h
    exact ⟨List.prefix_rfl, rfl, fun _ => id⟩
  | setValue =>
    obtain rfl := Option.some.inj h
    exact ⟨List.prefix_rfl, rfl, fun _ => id⟩

theorem refused_step {s t : State R σ} {a : Label ι} (hs : s.Refused) (hcoherent : s.Coherent)
    (h : step fn finalTask s a = some t) : t.Refused := by
  cases a with
  | check i =>
    obtain ⟨-, rfl⟩ := checkStep_eq h
    intro j value hj hnone
    by_cases heq : j = i
    · subst heq
      rw [State.setCall_calls_self] at hj
      split at hj
      · exact hcoherent.finalRan (Or.inl ‹_›)
      · cases hj
    · rw [State.setCall_calls_of_ne s heq] at hj
      exact hs j value hj hnone
  | post i =>
    obtain ⟨-, rfl⟩ := postStep_eq h
    intro j value hj hnone
    by_cases heq : j = i
    · subst heq
      rw [State.setCall_calls_self] at hj
      cases hj
    · rw [State.setCall_calls_of_ne _ heq] at hj
      exact hs j value hj hnone
  | wait i =>
    obtain ⟨value, -, hvalue, rfl⟩ := waitStep_eq h
    intro j value' hj hnone
    by_cases heq : j = i
    · subst heq
      cases hvalue.symm.trans hnone
    · rw [State.setCall_calls_of_ne s heq] at hj
      exact hs j value' hj hnone
  | shutdownCheck =>
    obtain ⟨-, rfl⟩ := shutdownCheckStep_eq h
    exact hs
  | shutdownPost =>
    obtain ⟨-, rfl⟩ := shutdownPostStep_eq h
    exact hs
  | shutdownWait =>
    obtain ⟨-, -, rfl⟩ := shutdownWaitStep_eq h
    exact hs
  | worker =>
    obtain ⟨hhistory, hcalls, hfutures⟩ := history_workerStep h
    intro j value hj hnone
    rw [hcalls] at hj
    exact hhistory.subset (hs j value hj (hfutures j hnone))

/-- What holds of the object and the calls in every run. -/
structure State.Linearized (fn : ∀ i, σ → R i × σ) (finalTask : Option (σ → σ)) (start : σ)
    (s : State R σ) : Prop where
  coherent : s.Coherent
  linear : s.Linear fn finalTask start
  refused : s.Refused

theorem linearized_run {start : σ} {labels : List (Label ι)} {t : State R σ}
    (h : Machine.run (step fn finalTask) (initial start) labels = some t) :
    t.Linearized fn finalTask start := by
  refine Machine.invariant_run (I := State.Linearized fn finalTask start) _ ?_ ?_ h
  · intro s a t hs hstep
    exact ⟨coherent_step hs.coherent hstep, linear_step hs.linear hs.coherent hstep,
      refused_step hs.refused hs.coherent hstep⟩
  · exact ⟨coherent_initial start, linear_initial start, fun i value hi => by cases hi⟩

omit [∀ i, Inhabited (R i)] in
theorem State.setCall_calls_of_returned {s : State R σ} {i j : ι} {value : R i}
    {pc pc' : CallPc (R j)} (hi : s.calls i = .returned value) (hj : s.calls j = pc')
    (hpc : ∀ v, pc' = .returned v → False) : (s.setCall j pc).calls i = .returned value := by
  have hne : i ≠ j := by
    rintro rfl
    exact hpc value (hj.symm.trans hi)
  rw [State.setCall_calls_of_ne s hne, hi]

/-- A call that has returned does not post. -/
theorem returned_step {s t : State R σ} {a : Label ι} {i : ι} {value : R i}
    (hi : s.calls i = .returned value) (h : step fn finalTask s a = some t) :
    t.calls i = .returned value ∧ (.task i ∉ s.order → .task i ∉ t.order) := by
  cases a with
  | check j =>
    obtain ⟨hentry, rfl⟩ := checkStep_eq h
    exact ⟨State.setCall_calls_of_returned hi hentry (by rintro v ⟨⟩), id⟩
  | post j =>
    have horder := order_postStep h
    obtain ⟨hchecked, rfl⟩ := postStep_eq h
    have hne : Handler.task i ≠ .task j := by
      intro heq
      obtain rfl := Handler.task.inj heq
      cases hchecked.symm.trans hi
    refine ⟨State.setCall_calls_of_returned hi hchecked (by rintro v ⟨⟩), fun hnot => ?_⟩
    rw [horder]
    simpa [hne] using hnot
  | wait j =>
    obtain ⟨v, hwaiting, -, rfl⟩ := waitStep_eq h
    exact ⟨State.setCall_calls_of_returned hi hwaiting (by rintro v ⟨⟩), id⟩
  | shutdownCheck =>
    obtain ⟨-, rfl⟩ := shutdownCheckStep_eq h
    exact ⟨hi, id⟩
  | shutdownPost =>
    have horder := order_shutdownPostStep h
    obtain ⟨-, rfl⟩ := shutdownPostStep_eq h
    refine ⟨hi, fun hnot => ?_⟩
    rw [horder]
    simpa using hnot
  | shutdownWait =>
    obtain ⟨-, -, rfl⟩ := shutdownWaitStep_eq h
    exact ⟨hi, id⟩
  | worker =>
    rw [order_workerStep h, (history_workerStep h).2.1]
    exact ⟨hi, id⟩

/-- What a call has not posted when it returns is never posted. -/
theorem not_mem_order_of_returned {s t : State R σ} {labels : List (Label ι)} {i : ι}
    {value : R i} (hi : s.calls i = .returned value) (hnot : .task i ∉ s.order)
    (h : Machine.run (step fn finalTask) s labels = some t) : .task i ∉ t.order := by
  refine (Machine.invariant_run
    (I := fun u => u.calls i = .returned value ∧ .task i ∉ u.order) _ ?_ ⟨hi, hnot⟩ h).2
  intro u a v hu hstep
  obtain ⟨hreturned, hposts⟩ := returned_step hu.1 hstep
  exact ⟨hreturned, hposts hu.2⟩

omit [DecidableEq ι] in
theorem State.Coherent.history_eq {s : State R σ} (hs : s.Coherent) :
    s.history = s.completed ∨ ∃ i, s.history = s.completed ++ [.task i] := by
  unfold State.completed
  split
  · rename_i i hrunning
    refine Or.inr ⟨i, ?_⟩
    exact (List.dropLast_append_getLast? _ (hs.running i hrunning).2).symm
  · exact Or.inl rfl

omit [DecidableEq ι] in
theorem State.Coherent.completed_prefix {s : State R σ} (hs : s.Coherent) :
    s.completed <+: s.order := by
  have hhistory : s.completed <+: s.history := by
    rcases hs.history_eq with heq | ⟨i, heq⟩
    · exact heq ▸ List.prefix_rfl
    · exact heq ▸ List.prefix_append _ _
  rw [State.order, List.append_assoc]
  exact hhistory.trans (List.prefix_append _ _)

omit [DecidableEq ι] in
theorem State.Coherent.shutdown_mem_completed {s : State R σ} (hs : s.Coherent)
    (h : .shutdown ∈ s.history) : .shutdown ∈ s.completed := by
  rcases hs.history_eq with heq | ⟨i, heq⟩
  · exact heq ▸ h
  · rw [heq] at h
    simpa using h

/-- A call that has returned before another begins precedes it. -/
theorem precedes_of_returned {s t : State R σ} {labels : List (Label ι)} (hs : s.Coherent)
    (ht : t.Coherent) (h : Machine.run (step fn finalTask) s labels = some t) {i j : ι}
    {value : R i} (hi : s.calls i = .returned value) (hj : s.calls j = .entry)
    (hidone : .task i ∈ t.completed) (hjdone : .task j ∈ t.completed) :
    Precedes t.completed (.task i) (.task j) := by
  have hposted : .task i ∈ s.order := by
    by_contra hnot
    exact not_mem_order_of_returned hi hnot h (ht.completed_prefix.subset hidone)
  have hlater : .task j ∉ s.order := hs.not_mem_order (by rw [hj]; rfl)
  rcases List.prefix_or_prefix_of_prefix (order_prefix_run h) ht.completed_prefix with
    hbegins | hbegins
  · obtain ⟨rest, hrest⟩ := hbegins
    rw [← hrest] at hjdone ⊢
    exact precedes_append hposted ((List.mem_append.mp hjdone).resolve_left hlater)
  · exact absurd (hbegins.subset hjdone) hlater

omit [DecidableEq ι] in
/-- A call that has returned got the answer of its place in the order, or was refused behind
the final task. -/
theorem State.Linearized.returned {start : σ} {t : State R σ}
    (ht : t.Linearized fn finalTask start) {i : ι} {value : R i}
    (hi : t.calls i = .returned value) :
    Answers (effect fn finalTask) start t.completed (.task i) value ∨
      .task i ∉ t.completed ∧ .shutdown ∈ t.completed ∧ value = default := by
  obtain ⟨hcoherent, hlinear, hrefused⟩ := ht
  rcases hcoherent.answered i value hi with hsome | ⟨hnot, hdefault⟩
  · exact Or.inl (hlinear.futures i value hsome)
  · have hnone : t.futures i = none := by
      by_contra hsome
      exact hnot (State.mem_order_of_mem_history ((hcoherent.started i).mpr (Or.inl hsome)))
    exact Or.inr ⟨fun hmem => hnot (hcoherent.completed_prefix.subset hmem),
      hcoherent.shutdown_mem_completed (hrefused i value hi hnone), hdefault⟩

omit [DecidableEq ι] in
theorem State.Coherent.nodup_completed {s : State R σ} (hs : s.Coherent) : s.completed.Nodup :=
  hs.nodup.sublist hs.completed_prefix.sublist

/-- Every run is a sequential one: there is an order of the functions and the final task in
which each runs alone, that ends in the object as it is, gives every call that has returned its
result, and keeps the order of calls of which one returns before the other begins. A call that
is not in the order was refused behind the final task. -/
theorem posted_calls_linearize {start : σ} {labels : List (Label ι)} {t : State R σ}
    (h : Machine.run (step fn finalTask) (initial start) labels = some t) :
    ∃ order : List (Handler ι), order.Nodup ∧
      t.object = after (effect fn finalTask) start order ∧
      (∀ i value, t.calls i = .returned value →
        Answers (effect fn finalTask) start order (.task i) value ∨
          .task i ∉ order ∧ .shutdown ∈ order ∧ value = default) ∧
      ∀ before rest s, labels = before ++ rest →
        Machine.run (step fn finalTask) (initial start) before = some s →
        ∀ i value j, s.calls i = .returned value → s.calls j = .entry →
          .task i ∈ order → .task j ∈ order → Precedes order (.task i) (.task j) := by
  have ht := linearized_run h
  refine ⟨t.completed, ht.coherent.nodup_completed, ht.linear.object,
    fun i value hi => ht.returned hi, ?_⟩
  rintro before rest s rfl hbefore i value j hi hj
  obtain ⟨u, hu, hrest⟩ := (Machine.run_append_some _).mp h
  obtain rfl := Option.some.inj (hbefore.symm.trans hu)
  exact precedes_of_returned (linearized_run hbefore).coherent ht.coherent hrest hi hj

theorem posted_calls_linearize_oneCallBefore : ∃ s order,
    Machine.run (step readObject dropObject) (initial (some 7)) oneCallBefore = some s ∧
      s.object = after (effect readObject dropObject) (some 7) order ∧
      Answers (effect readObject dropObject) (some 7) order (.task true) (some 7) := by
  have hs : Machine.run (step readObject dropObject) (initial (some 7)) oneCallBefore =
    some _ := rfl
  obtain ⟨order, -, hobject, hanswers, -⟩ := posted_calls_linearize hs
  refine ⟨_, order, hs, hobject, ?_⟩
  rcases hanswers true (some 7) rfl with hanswer | ⟨-, -, hdefault⟩
  · exact hanswer
  · cases hdefault

end SyncDispatchQueue

end Evrp
