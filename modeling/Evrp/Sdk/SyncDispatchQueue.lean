import Mathlib.Data.List.Nodup
import Mathlib.Logic.Function.Basic
import Evrp.Lib.Machine

/-!
# Calls that a worker runs, and their shutdown

A call reads a flag, posts its function to the worker and waits for the result.
The flag is set by the handler that the shutdown posts, so a call that has read
the flag in time can still post behind that handler, and its function then uses
the object after the final task. The handlers start in the order in which they
were posted; what can go wrong is therefore a fact about that order.
-/

namespace Evrp

namespace SyncDispatchQueue

/-- A handler in the queue of the worker: the function of a call, or the one of the shutdown. -/
inductive Handler (ι : Type*) where
  | task (i : ι)
  | shutdown
  deriving DecidableEq, Repr

/-- What the worker is at. The last three are the parts of the handler of the shutdown. -/
inductive Worker (ι : Type*) where
  | idle
  | running (i : ι)
  | finalTask
  | store
  | setValue
  deriving DecidableEq, Repr

/-- Where a call stands. -/
inductive CallPc (R : Type*) where
  | entry
  | checked
  | waiting
  | returned (value : R)
  deriving DecidableEq, Repr

/-- Where the shutdown stands. -/
inductive ShutdownPc where
  | entry
  | checked
  | waiting
  | returned
  deriving DecidableEq, Repr

/-- The call is past the step that posts, or has left before it. -/
def CallPc.pastPost {R : Type*} : CallPc R → Bool
  | .waiting | .returned _ => true
  | _ => false

def ShutdownPc.pastPost : ShutdownPc → Bool
  | .waiting | .returned => true
  | _ => false

/-- The wrapped object, the queue and its worker, the flag and the promise of the shutdown, the
calls with the shared states of their futures, and what the worker has done so far: which
functions it has started, and whether the final task has run. -/
structure State {ι : Type*} (R : ι → Type*) (σ : Type*) where
  object : σ
  queue : List (Handler ι)
  worker : Worker ι
  shutdownDone : Bool
  barrier : Bool
  calls : ∀ i, CallPc (R i)
  futures : ∀ i, Option (R i)
  shutdownPc : ShutdownPc
  history : List (Handler ι)

/-- A step of one of the calls, of the shutdown or of the worker. -/
inductive Label (ι : Type*) where
  | check (i : ι)
  | post (i : ι)
  | wait (i : ι)
  | shutdownCheck
  | shutdownPost
  | shutdownWait
  | worker
  deriving DecidableEq, Repr

variable {ι σ : Type*} {R : ι → Type*}

/-- No call has begun and nothing is posted. -/
def initial (object : σ) : State R σ :=
  ⟨object, [], .idle, false, false, fun _ => .entry, fun _ => none, .entry, []⟩

/-- The handler is posted behind all others. -/
def State.enqueue (s : State R σ) (h : Handler ι) : State R σ :=
  { s with queue := s.queue ++ [h] }

section Steps

variable [DecidableEq ι]

def State.setCall (s : State R σ) (i : ι) (pc : CallPc (R i)) : State R σ :=
  { s with calls := Function.update s.calls i pc }

/-- `postSync` reads the flag; behind a shutdown it returns `R{}`. A `postVoid` is a call whose
result type is `Unit`. -/
def checkStep [∀ i, Inhabited (R i)] (s : State R σ) (i : ι) : Option (State R σ) :=
  match s.calls i with
  | .entry => some (s.setCall i (if s.shutdownDone then .returned default else .checked))
  | _ => none

def postStep (s : State R σ) (i : ι) : Option (State R σ) :=
  match s.calls i with
  | .checked => some ((s.enqueue (.task i)).setCall i .waiting)
  | _ => none

/-- The call blocks until its future has a value. -/
def waitStep (s : State R σ) (i : ι) : Option (State R σ) :=
  match s.calls i, s.futures i with
  | .waiting, some value => some (s.setCall i (.returned value))
  | _, _ => none

def shutdownCheckStep (s : State R σ) : Option (State R σ) :=
  match s.shutdownPc with
  | .entry => some { s with shutdownPc := if s.shutdownDone then .returned else .checked }
  | _ => none

def shutdownPostStep (s : State R σ) : Option (State R σ) :=
  match s.shutdownPc with
  | .checked => some { s.enqueue .shutdown with shutdownPc := .waiting }
  | _ => none

/-- The shutdown blocks until its promise is set. -/
def shutdownWaitStep (s : State R σ) : Option (State R σ) :=
  match s.shutdownPc with
  | .waiting => if s.barrier then some { s with shutdownPc := .returned } else none
  | _ => none

variable (fn : ∀ i, σ → R i × σ) (finalTask : Option (σ → σ))

/-- A shutdown without a final task leaves the object alone. -/
def runFinalTask (object : σ) : σ :=
  match finalTask with
  | some ft => ft object
  | none => object

/-- The worker takes the handler at the head of the queue, or goes on with the one it has. -/
def workerStep (s : State R σ) : Option (State R σ) :=
  match s.worker with
  | .idle =>
    match s.queue with
    | [] => none
    | .task i :: queue => some { s with
        queue := queue
        worker := .running i
        history := s.history ++ [.task i] }
    | .shutdown :: queue => some { s with queue := queue, worker := .finalTask }
  | .running i => some { s with
      object := (fn i s.object).2
      futures := Function.update s.futures i (some (fn i s.object).1)
      worker := .idle }
  | .finalTask => some { s with
      object := runFinalTask finalTask s.object
      worker := .store
      history := s.history ++ [.shutdown] }
  | .store => some { s with shutdownDone := true, worker := .setValue }
  | .setValue => some { s with barrier := true, worker := .idle }

def step [∀ i, Inhabited (R i)] (s : State R σ) : Label ι → Option (State R σ)
  | .check i => checkStep s i
  | .post i => postStep s i
  | .wait i => waitStep s i
  | .shutdownCheck => shutdownCheckStep s
  | .shutdownPost => shutdownPostStep s
  | .shutdownWait => shutdownWaitStep s
  | .worker => workerStep fn finalTask s

end Steps

variable {fn : ∀ i, σ → R i × σ} {finalTask : Option (σ → σ)}

/-! ## What a step needs and does -/

section Inversion

variable {s t : State R σ}

theorem shutdownCheckStep_eq (h : shutdownCheckStep s = some t) : s.shutdownPc = .entry ∧
    t = { s with shutdownPc := if s.shutdownDone then .returned else .checked } := by
  unfold shutdownCheckStep at h
  split at h
  · rename_i hentry
    exact ⟨hentry, (Option.some.inj h).symm⟩
  · cases h

theorem shutdownPostStep_eq (h : shutdownPostStep s = some t) :
    s.shutdownPc = .checked ∧ t = { s.enqueue .shutdown with shutdownPc := .waiting } := by
  unfold shutdownPostStep at h
  split at h
  · rename_i hchecked
    exact ⟨hchecked, (Option.some.inj h).symm⟩
  · cases h

theorem shutdownWaitStep_eq (h : shutdownWaitStep s = some t) :
    s.shutdownPc = .waiting ∧ s.barrier = true ∧ t = { s with shutdownPc := .returned } := by
  unfold shutdownWaitStep at h
  split at h
  · rename_i hwaiting
    split at h
    · rename_i hbarrier
      exact ⟨hwaiting, hbarrier, (Option.some.inj h).symm⟩
    · cases h
  · cases h

variable [DecidableEq ι] {i : ι}

theorem checkStep_eq [∀ i, Inhabited (R i)] (h : checkStep s i = some t) :
    s.calls i = .entry ∧
      t = s.setCall i (if s.shutdownDone then .returned default else .checked) := by
  unfold checkStep at h
  split at h
  · rename_i hentry
    exact ⟨hentry, (Option.some.inj h).symm⟩
  · cases h

theorem postStep_eq (h : postStep s i = some t) :
    s.calls i = .checked ∧ t = (s.enqueue (.task i)).setCall i .waiting := by
  unfold postStep at h
  split at h
  · rename_i hchecked
    exact ⟨hchecked, (Option.some.inj h).symm⟩
  · cases h

theorem waitStep_eq (h : waitStep s i = some t) : ∃ value,
    s.calls i = .waiting ∧ s.futures i = some value ∧ t = s.setCall i (.returned value) := by
  unfold waitStep at h
  split at h
  · rename_i value hwaiting hvalue
    exact ⟨value, hwaiting, hvalue, (Option.some.inj h).symm⟩
  · cases h

end Inversion

/-! ## The order of the handlers -/

section Order

/-- The handler that the worker has taken and whose effect is not in the history yet. -/
def Worker.unfinished : Worker ι → List (Handler ι)
  | .finalTask => [.shutdown]
  | _ => []

/-- The handlers in the order in which they are posted, and in which they start. -/
def State.order (s : State R σ) : List (Handler ι) :=
  s.history ++ s.worker.unfinished ++ s.queue

theorem State.mem_order_of_mem_history {s : State R σ} {h : Handler ι} (hh : h ∈ s.history) :
    h ∈ s.order :=
  List.mem_append_left _ (List.mem_append_left _ hh)

theorem State.order_enqueue (s : State R σ) (h : Handler ι) :
    (s.enqueue h).order = s.order ++ [h] :=
  (List.append_assoc _ _ _).symm

theorem order_shutdownPostStep {s t : State R σ} (h : shutdownPostStep s = some t) :
    t.order = s.order ++ [.shutdown] := by
  obtain ⟨-, rfl⟩ := shutdownPostStep_eq h
  exact State.order_enqueue s .shutdown

variable [DecidableEq ι]

@[simp] theorem State.setCall_calls_self (s : State R σ) (i : ι) (pc : CallPc (R i)) :
    (s.setCall i pc).calls i = pc := by
  unfold State.setCall
  exact Function.update_self ..

theorem State.setCall_calls_of_ne (s : State R σ) {i j : ι} (hj : j ≠ i) (pc : CallPc (R i)) :
    (s.setCall i pc).calls j = s.calls j := by
  unfold State.setCall
  exact Function.update_of_ne hj ..

/-- A call that posts puts its function behind all others. -/
theorem order_postStep {s t : State R σ} {i : ι} (h : postStep s i = some t) :
    t.order = s.order ++ [.task i] := by
  obtain ⟨-, rfl⟩ := postStep_eq h
  exact State.order_enqueue s (.task i)

/-- The worker keeps the order. -/
theorem order_workerStep {s t : State R σ} (h : workerStep fn finalTask s = some t) :
    t.order = s.order := by
  obtain ⟨object, queue, worker, done, barrier, calls, futures, pc, history⟩ := s
  cases worker with
  | idle =>
    cases queue with
    | nil => cases h
    | cons handler queue =>
      cases handler with
      | task i =>
        obtain rfl := Option.some.inj h
        simp [State.order, Worker.unfinished]
      | shutdown =>
        obtain rfl := Option.some.inj h
        simp [State.order, Worker.unfinished]
  | running i =>
    obtain rfl := Option.some.inj h
    rfl
  | finalTask =>
    obtain rfl := Option.some.inj h
    simp [State.order, Worker.unfinished]
  | store =>
    obtain rfl := Option.some.inj h
    rfl
  | setValue =>
    obtain rfl := Option.some.inj h
    rfl

/-- The worker stops only behind the last handler. -/
theorem history_eq_order_of_workerStep {s : State R σ} (h : workerStep fn finalTask s = none) :
    s.worker = .idle ∧ s.history = s.order := by
  obtain ⟨object, queue, worker, done, barrier, calls, futures, pc, history⟩ := s
  cases worker with
  | idle =>
    cases queue with
    | nil => exact ⟨rfl, by simp [State.order, Worker.unfinished]⟩
    | cons handler queue => cases handler <;> cases h
  | _ => cases h

/-- The steps that the worker still has to make for the handler it has taken. -/
def Worker.work : Worker ι → ℕ
  | .idle => 0
  | .running _ => 1
  | .finalTask => 3
  | .store => 2
  | .setValue => 1

/-- A bound of the steps that the worker still has to make. -/
def State.work (s : State R σ) : ℕ := s.worker.work + 4 * s.queue.length

theorem work_workerStep {s t : State R σ} (h : workerStep fn finalTask s = some t) :
    t.work < s.work := by
  obtain ⟨object, queue, worker, done, barrier, calls, futures, pc, history⟩ := s
  cases worker with
  | idle =>
    cases queue with
    | nil => cases h
    | cons handler queue =>
      cases handler
      all_goals
        obtain rfl := Option.some.inj h
        simp only [State.work, Worker.work, List.length_cons]
        omega
  | _ =>
    obtain rfl := Option.some.inj h
    simp only [State.work, Worker.work]
    omega

/-- Posting is all that changes the order. -/
theorem order_step [∀ i, Inhabited (R i)] {s t : State R σ} {a : Label ι}
    (h : step fn finalTask s a = some t) :
    t.order = s.order ∨ (∃ i, a = .post i ∧ t.order = s.order ++ [.task i]) ∨
      a = .shutdownPost ∧ t.order = s.order ++ [.shutdown] := by
  cases a with
  | check i =>
    obtain ⟨-, rfl⟩ := checkStep_eq h
    exact Or.inl rfl
  | post i => exact Or.inr (Or.inl ⟨i, rfl, order_postStep h⟩)
  | wait i =>
    obtain ⟨value, -, -, rfl⟩ := waitStep_eq h
    exact Or.inl rfl
  | shutdownCheck =>
    obtain ⟨-, rfl⟩ := shutdownCheckStep_eq h
    exact Or.inl rfl
  | shutdownPost => exact Or.inr (Or.inr ⟨rfl, order_shutdownPostStep h⟩)
  | shutdownWait =>
    obtain ⟨-, -, rfl⟩ := shutdownWaitStep_eq h
    exact Or.inl rfl
  | worker => exact Or.inl (order_workerStep h)

end Order

/-! ## What holds in every run -/

/-- What holds in every run: a handler is posted at most once, by a call that has not returned
without its function; the history has the functions that are running or have left a result; the
flag and the promise of the shutdown are set behind the final task. -/
structure State.Coherent [∀ i, Inhabited (R i)] (s : State R σ) : Prop where
  nodup : s.order.Nodup
  posted : ∀ i, .task i ∈ s.order → (s.calls i).pastPost = true
  waiting : ∀ i, s.calls i = .waiting → .task i ∈ s.order
  answered : ∀ i value, s.calls i = .returned value →
    s.futures i = some value ∨ .task i ∉ s.order ∧ value = default
  shutdownPosted : .shutdown ∈ s.order ↔ s.shutdownPc.pastPost = true
  started : ∀ i, .task i ∈ s.history ↔ s.futures i ≠ none ∨ s.worker = .running i
  running : ∀ i, s.worker = .running i →
    s.futures i = none ∧ s.history.getLast? = some (.task i)
  finalRan : s.shutdownDone = true ∨ s.barrier = true ∨ s.worker = .store ∨
    s.worker = .setValue → .shutdown ∈ s.history
  released : s.shutdownPc = .returned → s.barrier = true

section Coherent

variable [∀ i, Inhabited (R i)]

theorem coherent_initial (object : σ) : (initial object : State R σ).Coherent where
  nodup := List.nodup_nil
  posted i hi := absurd hi List.not_mem_nil
  waiting i hi := by cases hi
  answered i value hi := by cases hi
  shutdownPosted := by simp [initial, State.order, Worker.unfinished, ShutdownPc.pastPost]
  started i := by simp [initial]
  running i hi := by cases hi
  finalRan h := by simp [initial] at h
  released h := by cases h

theorem State.Coherent.not_mem_order {s : State R σ} (hs : s.Coherent) {i : ι}
    (hpc : (s.calls i).pastPost = false) : .task i ∉ s.order := by
  intro hi
  rw [hs.posted i hi] at hpc
  cases hpc

theorem State.Coherent.shutdown_not_mem_order {s : State R σ} (hs : s.Coherent)
    (hpc : s.shutdownPc.pastPost = false) : .shutdown ∉ s.order := by
  rw [hs.shutdownPosted, hpc]
  exact Bool.false_ne_true

theorem coherent_shutdownCheckStep {s t : State R σ} (hs : s.Coherent)
    (h : shutdownCheckStep s = some t) : t.Coherent := by
  obtain ⟨hentry, rfl⟩ := shutdownCheckStep_eq h
  have hnot : .shutdown ∉ s.order := hs.shutdown_not_mem_order (by rw [hentry]; rfl)
  -- The flag is set behind the only final task, so the shutdown does not find it set.
  have hflag : s.shutdownDone = false := by
    cases hdone : s.shutdownDone with
    | false => rfl
    | true => exact absurd (State.mem_order_of_mem_history (hs.finalRan (Or.inl hdone))) hnot
  have hpc : (if s.shutdownDone then .returned else .checked) = ShutdownPc.checked := by
    rw [hflag]
    rfl
  rw [hpc]
  refine { hs with shutdownPosted := iff_of_false hnot Bool.false_ne_true, released := ?_ }
  intro hreturned
  cases hreturned

theorem coherent_shutdownPostStep {s t : State R σ} (hs : s.Coherent)
    (h : shutdownPostStep s = some t) : t.Coherent := by
  have horder := order_shutdownPostStep h
  obtain ⟨hchecked, rfl⟩ := shutdownPostStep_eq h
  have hnot : .shutdown ∉ s.order := hs.shutdown_not_mem_order (by rw [hchecked]; rfl)
  have hother : ∀ i, .task i ∈ s.order ++ [.shutdown] ↔ .task i ∈ s.order := by
    intro i
    simp
  refine ⟨?_, fun i => ?_, fun i => ?_, fun i value => ?_, ?_, hs.started, hs.running,
    hs.finalRan, fun hpc => by cases hpc⟩
  all_goals rw [horder]
  · exact List.concat_eq_append ▸ hs.nodup.concat hnot
  · rw [hother]
    exact hs.posted i
  · rw [hother]
    exact hs.waiting i
  · rw [hother]
    exact hs.answered i value
  · exact iff_of_true (List.mem_append_right _ (List.mem_singleton.mpr rfl)) rfl

theorem coherent_shutdownWaitStep {s t : State R σ} (hs : s.Coherent)
    (h : shutdownWaitStep s = some t) : t.Coherent := by
  obtain ⟨hwaiting, hbarrier, rfl⟩ := shutdownWaitStep_eq h
  have hposted := hs.shutdownPosted
  rw [hwaiting] at hposted
  exact { hs with shutdownPosted := hposted, released := fun _ => hbarrier }

/-- The worker moves without touching the order or the calls. -/
theorem State.Coherent.worked {s t : State R σ} (hs : s.Coherent) (horder : t.order = s.order)
    (hcalls : t.calls = s.calls) (hpc : t.shutdownPc = s.shutdownPc)
    (hfutures : ∀ i value, s.futures i = some value → t.futures i = some value)
    (hbarrier : s.barrier = true → t.barrier = true)
    (hstarted : ∀ i, .task i ∈ t.history ↔ t.futures i ≠ none ∨ t.worker = .running i)
    (hrunning : ∀ i, t.worker = .running i →
      t.futures i = none ∧ t.history.getLast? = some (.task i))
    (hfinal : t.shutdownDone = true ∨ t.barrier = true ∨ t.worker = .store ∨
      t.worker = .setValue → .shutdown ∈ t.history) : t.Coherent where
  nodup := horder ▸ hs.nodup
  posted i hi := hcalls ▸ hs.posted i (horder ▸ hi)
  waiting i hi := horder ▸ hs.waiting i (hcalls ▸ hi)
  answered i value hi := by
    rw [horder]
    exact (hs.answered i value (hcalls ▸ hi)).imp_left (hfutures i value)
  shutdownPosted := by
    rw [horder, hpc]
    exact hs.shutdownPosted
  started := hstarted
  running := hrunning
  finalRan := hfinal
  released hi := hbarrier (hs.released (hpc ▸ hi))

/-- A call returns the result of its function, or the default if that has not been started. -/
theorem State.Coherent.returned_eq {s : State R σ} (hs : s.Coherent) {i : ι} {value : R i}
    (hi : s.calls i = .returned value) :
    .task i ∈ s.history ∧ s.futures i = some value ∨ .task i ∉ s.history ∧ value = default := by
  rcases hs.answered i value hi with hsome | ⟨hnot, hdefault⟩
  · refine Or.inl ⟨(hs.started i).mpr (Or.inl ?_), hsome⟩
    rw [hsome]
    exact Option.some_ne_none value
  · exact Or.inr ⟨fun hi => hnot (State.mem_order_of_mem_history hi), hdefault⟩

section Calls

variable [DecidableEq ι]

/-- A call moves without touching the queue. -/
theorem State.Coherent.setCall {s : State R σ} (hs : s.Coherent) {i : ι} {pc : CallPc (R i)}
    (hposted : .task i ∈ s.order → pc.pastPost = true)
    (hwaiting : pc = .waiting → .task i ∈ s.order)
    (hanswered : ∀ value, pc = .returned value →
      s.futures i = some value ∨ .task i ∉ s.order ∧ value = default) :
    (s.setCall i pc).Coherent := by
  refine { hs with posted := fun j => ?_, waiting := fun j => ?_, answered := fun j => ?_ }
  all_goals by_cases hj : j = i
  case pos | pos | pos =>
    subst hj
    rw [State.setCall_calls_self]
    assumption
  · rw [State.setCall_calls_of_ne s hj]
    exact hs.posted j
  · rw [State.setCall_calls_of_ne s hj]
    exact hs.waiting j
  · rw [State.setCall_calls_of_ne s hj]
    exact hs.answered j

theorem coherent_checkStep {s t : State R σ} {i : ι} (hs : s.Coherent)
    (h : checkStep s i = some t) : t.Coherent := by
  obtain ⟨hentry, rfl⟩ := checkStep_eq h
  have hnot : .task i ∉ s.order := hs.not_mem_order (by rw [hentry]; rfl)
  refine hs.setCall (fun hi => absurd hi hnot) ?_ ?_
  · split <;> intro hpc <;> cases hpc
  · split
    · intro value hpc
      exact Or.inr ⟨hnot, (CallPc.returned.inj hpc).symm⟩
    · intro value hpc
      cases hpc

theorem coherent_postStep {s t : State R σ} {i : ι} (hs : s.Coherent)
    (h : postStep s i = some t) : t.Coherent := by
  have horder := order_postStep h
  obtain ⟨hchecked, rfl⟩ := postStep_eq h
  have hnot : .task i ∉ s.order := hs.not_mem_order (by rw [hchecked]; rfl)
  have hother : ∀ j, j ≠ i → (.task j ∈ s.order ++ [.task i] ↔ .task j ∈ s.order) := by
    intro j hj
    simp [hj]
  refine ⟨?_, fun j => ?_, fun j => ?_, fun j value => ?_, ?_, hs.started, hs.running,
    hs.finalRan, hs.released⟩
  all_goals rw [horder]
  · exact List.concat_eq_append ▸ hs.nodup.concat hnot
  · by_cases hj : j = i
    · subst hj
      rw [State.setCall_calls_self]
      exact fun _ => rfl
    · rw [State.setCall_calls_of_ne _ hj, hother j hj]
      exact hs.posted j
  · by_cases hj : j = i
    · subst hj
      exact fun _ => List.mem_append_right _ (List.mem_singleton.mpr rfl)
    · rw [State.setCall_calls_of_ne _ hj, hother j hj]
      exact hs.waiting j
  · by_cases hj : j = i
    · subst hj
      rw [State.setCall_calls_self]
      intro hpc
      cases hpc
    · rw [State.setCall_calls_of_ne _ hj, hother j hj]
      exact hs.answered j value
  · refine Iff.trans ?_ hs.shutdownPosted
    simp

theorem coherent_waitStep {s t : State R σ} {i : ι} (hs : s.Coherent)
    (h : waitStep s i = some t) : t.Coherent := by
  obtain ⟨value, -, hvalue, rfl⟩ := waitStep_eq h
  refine hs.setCall (fun _ => rfl) (fun hpc => by cases hpc) fun value' hpc => ?_
  exact Or.inl (CallPc.returned.inj hpc ▸ hvalue)

theorem coherent_workerStep {s t : State R σ} (hs : s.Coherent)
    (h : workerStep fn finalTask s = some t) : t.Coherent := by
  have horder := order_workerStep h
  obtain ⟨object, queue, worker, done, barrier, calls, futures, pc, history⟩ := s
  have hstarted := hs.started
  have hfinal := hs.finalRan
  cases worker with
  | idle =>
    cases queue with
    | nil => cases h
    | cons handler queue =>
      cases handler with
      | task i =>
        obtain rfl := Option.some.inj h
        refine hs.worked horder rfl rfl (fun _ _ hv => hv) id (fun j => ?_) (fun j hj => ?_) ?_
        · simpa [eq_comm] using or_congr_left (hstarted j)
        · obtain rfl := Worker.running.inj hj
          refine ⟨?_, List.getLast?_concat⟩
          -- The function is at the head of the queue, so it has not started before.
          have hnot : .task i ∉ history := by
            have hnodup := hs.nodup
            simp only [State.order, Worker.unfinished, List.append_nil] at hnodup
            exact fun hi => List.disjoint_of_nodup_append hnodup hi List.mem_cons_self
          by_contra hsome
          exact hnot ((hstarted i).mpr (Or.inl hsome))
        · rintro (hdone | hbarrier | hstore | hset)
          · exact List.mem_append_left _ (hfinal (Or.inl hdone))
          · exact List.mem_append_left _ (hfinal (Or.inr (Or.inl hbarrier)))
          · cases hstore
          · cases hset
      | shutdown =>
        obtain rfl := Option.some.inj h
        refine hs.worked horder rfl rfl (fun _ _ hv => hv) id (fun j => ?_) (fun j hj => ?_) ?_
        · simpa using hstarted j
        · cases hj
        · simpa using hfinal
  | running i =>
    obtain rfl := Option.some.inj h
    obtain ⟨hnone, -⟩ := hs.running i rfl
    refine hs.worked horder rfl rfl (fun j value hv => ?_) id (fun j => ?_) (fun j hj => ?_) ?_
    · have hj : j ≠ i := by
        rintro rfl
        cases hnone.symm.trans hv
      exact (Function.update_of_ne hj _ _).trans hv
    · by_cases hj : j = i
      · subst hj
        simpa using (hstarted j).mpr (Or.inr rfl)
      · simpa [hj, Ne.symm hj] using hstarted j
    · cases hj
    · simpa using hfinal
  | finalTask =>
    obtain rfl := Option.some.inj h
    refine hs.worked horder rfl rfl (fun _ _ hv => hv) id (fun j => ?_) (fun j hj => ?_) ?_
    · simpa using hstarted j
    · cases hj
    · exact fun _ => List.mem_append_right _ (List.mem_singleton.mpr rfl)
  | store =>
    obtain rfl := Option.some.inj h
    refine hs.worked horder rfl rfl (fun _ _ hv => hv) id (fun j => ?_) (fun j hj => ?_) ?_
    · simpa using hstarted j
    · cases hj
    · exact fun _ => hfinal (Or.inr (Or.inr (Or.inl rfl)))
  | setValue =>
    obtain rfl := Option.some.inj h
    refine hs.worked horder rfl rfl (fun _ _ hv => hv) (fun _ => rfl) (fun j => ?_)
      (fun j hj => ?_) ?_
    · simpa using hstarted j
    · cases hj
    · exact fun _ => hfinal (Or.inr (Or.inr (Or.inr rfl)))

theorem coherent_step {s t : State R σ} {a : Label ι} (hs : s.Coherent)
    (h : step fn finalTask s a = some t) : t.Coherent := by
  cases a with
  | check i => exact coherent_checkStep hs h
  | post i => exact coherent_postStep hs h
  | wait i => exact coherent_waitStep hs h
  | shutdownCheck => exact coherent_shutdownCheckStep hs h
  | shutdownPost => exact coherent_shutdownPostStep hs h
  | shutdownWait => exact coherent_shutdownWaitStep hs h
  | worker => exact coherent_workerStep hs h

/-- A function is started at most once. -/
theorem State.Coherent.count_history_le {s : State R σ} (hs : s.Coherent) (i : ι) :
    s.history.count (.task i) ≤ 1 := by
  have hnodup : s.history.Nodup :=
    hs.nodup.sublist ((List.sublist_append_left _ _).trans (List.sublist_append_left _ _))
  exact List.nodup_iff_count_le_one.mp hnodup _

/-- No call is left behind: one that has not returned can move, or the worker can. -/
theorem State.Coherent.returned_of_stuck {s : State R σ} (hs : s.Coherent) {i : ι}
    (hstuck : ∀ a ∈ [.check i, .post i, .wait i, .worker], step fn finalTask s a = none) :
    ∃ value, s.calls i = .returned value := by
  have hworker : step fn finalTask s .worker = none := hstuck _ (by simp)
  obtain ⟨hidle, hhistory⟩ := history_eq_order_of_workerStep hworker
  cases hpc : s.calls i with
  | entry => simpa [step, checkStep, hpc] using hstuck (.check i) (by simp)
  | checked => simpa [step, postStep, hpc] using hstuck (.post i) (by simp)
  | waiting =>
    have hstarted : .task i ∈ s.history := hhistory ▸ hs.waiting i hpc
    rcases (hs.started i).mp hstarted with hsome | hrunning
    · obtain ⟨value, hvalue⟩ := Option.ne_none_iff_exists'.mp hsome
      simpa [step, waitStep, hpc, hvalue] using hstuck (.wait i) (by simp)
    · rw [hidle] at hrunning
      cases hrunning
  | returned value => exact ⟨value, rfl⟩

end Calls

/-! ## The shutdown as a barrier -/

/-- No function has started behind the final task, and once the shutdown has returned none runs
or is left in the queue. -/
structure State.Sealed (s : State R σ) : Prop where
  final : ∀ before after, s.history = before ++ .shutdown :: after → ∀ i, .task i ∉ after
  unused : s.shutdownPc = .returned → ∀ i, s.worker ≠ .running i ∧ .task i ∉ s.queue

/-- No call posts its function behind the handler of the shutdown. -/
def guard (s : State R σ) : Label ι → Prop
  | .post _ => s.shutdownPc.pastPost = false
  | _ => True

instance (s : State R σ) : ∀ a, Decidable (guard s a)
  | .post _ => inferInstanceAs (Decidable (_ = _))
  | .check _ | .wait _ | .shutdownCheck | .shutdownPost | .shutdownWait | .worker =>
    isTrue trivial

/-- The handler of the shutdown, once it is posted, is the last one. -/
def State.Closed (s : State R σ) : Prop :=
  .shutdown ∈ s.order → s.order.getLast? = some .shutdown

/-- Behind the final task the worker has nothing left. -/
theorem State.Coherent.history_of_closed {s : State R σ} (hs : s.Coherent) (hclosed : s.Closed)
    {before after : List (Handler ι)} (hhistory : s.history = before ++ .shutdown :: after) :
    after = [] ∧ s.worker.unfinished = [] ∧ s.queue = [] := by
  have horder : s.order = before ++ .shutdown :: (after ++ s.worker.unfinished ++ s.queue) := by
    simp [State.order, hhistory]
  have hlast := hclosed (by simp [horder])
  have hnodup := hs.nodup
  rw [horder] at hlast hnodup
  rcases List.eq_nil_or_concat (after ++ s.worker.unfinished ++ s.queue) with
    hnil | ⟨rest, handler, hconcat⟩
  · simpa [and_assoc] using hnil
  · -- A handler behind the one of the shutdown would be the same one, posted twice.
    rw [hconcat, List.concat_eq_append, ← List.cons_append, ← List.append_assoc,
      List.getLast?_concat] at hlast
    obtain rfl := Option.some.inj hlast
    rw [hconcat] at hnodup
    simp [List.nodup_append] at hnodup

/-- Once the shutdown has returned the worker neither has nor finds a function to run. -/
theorem State.Coherent.quiet_of_returned {s : State R σ} (hs : s.Coherent) (hclosed : s.Closed)
    (hreturned : s.shutdownPc = .returned) :
    (∀ i, s.worker ≠ .running i) ∧ s.worker.unfinished = [] ∧ s.queue = [] := by
  have hfinal := hs.finalRan (Or.inr (Or.inl (hs.released hreturned)))
  obtain ⟨before, after, hhistory⟩ := List.append_of_mem hfinal
  obtain ⟨rfl, hrest⟩ := hs.history_of_closed hclosed hhistory
  refine ⟨fun i hrunning => ?_, hrest⟩
  have hlast := (hs.running i hrunning).2
  rw [hhistory, List.getLast?_concat] at hlast
  cases hlast

theorem State.Coherent.sealed_of_closed {s : State R σ} (hs : s.Coherent) (hclosed : s.Closed) :
    s.Sealed := by
  constructor
  · intro before after hhistory i hi
    rw [(hs.history_of_closed hclosed hhistory).1] at hi
    exact absurd hi List.not_mem_nil
  · intro hreturned i
    obtain ⟨hworker, -, hqueue⟩ := hs.quiet_of_returned hclosed hreturned
    refine ⟨hworker i, fun hi => ?_⟩
    rw [hqueue] at hi
    exact absurd hi List.not_mem_nil

variable [DecidableEq ι]

theorem closed_step {s t : State R σ} {a : Label ι} (hs : s.Coherent) (hclosed : s.Closed)
    (hguard : guard s a) (h : step fn finalTask s a = some t) : t.Closed := by
  unfold State.Closed
  rcases order_step h with horder | ⟨i, rfl, horder⟩ | ⟨rfl, horder⟩
  all_goals rw [horder]
  · exact hclosed
  · intro hmem
    have hnot := hs.shutdown_not_mem_order hguard
    simp [hnot] at hmem
  · exact fun _ => List.getLast?_concat

/-- Once the shutdown has returned no step uses the object. -/
theorem object_step_of_returned {s t : State R σ} {a : Label ι} (hs : s.Coherent)
    (hclosed : s.Closed) (hreturned : s.shutdownPc = .returned)
    (h : step fn finalTask s a = some t) :
    t.shutdownPc = .returned ∧ t.object = s.object ∧ t.history = s.history := by
  cases a with
  | check i =>
    obtain ⟨-, rfl⟩ := checkStep_eq h
    exact ⟨hreturned, rfl, rfl⟩
  | post i =>
    obtain ⟨-, rfl⟩ := postStep_eq h
    exact ⟨hreturned, rfl, rfl⟩
  | wait i =>
    obtain ⟨value, -, -, rfl⟩ := waitStep_eq h
    exact ⟨hreturned, rfl, rfl⟩
  | shutdownCheck => cases hreturned.symm.trans (shutdownCheckStep_eq h).1
  | shutdownPost => cases hreturned.symm.trans (shutdownPostStep_eq h).1
  | shutdownWait => cases hreturned.symm.trans (shutdownWaitStep_eq h).1
  | worker =>
    obtain ⟨hrunning, hunfinished, hqueue⟩ := hs.quiet_of_returned hclosed hreturned
    obtain ⟨object, queue, worker, done, barrier, calls, futures, pc, history⟩ := s
    obtain rfl : queue = [] := hqueue
    cases worker with
    | idle => cases h
    | running i => exact absurd rfl (hrunning i)
    | finalTask => cases hunfinished
    | store =>
      obtain rfl := Option.some.inj h
      exact ⟨hreturned, rfl, rfl⟩
    | setValue =>
      obtain rfl := Option.some.inj h
      exact ⟨hreturned, rfl, rfl⟩

/-! ## Runs -/

section Runs

theorem coherent_run {object : σ} {labels : List (Label ι)} {s : State R σ}
    (hs : Machine.run (step fn finalTask) (initial object) labels = some s) : s.Coherent :=
  Machine.invariant_run (I := State.Coherent) _ (fun _ _ _ hs h => coherent_step hs h)
    (coherent_initial object) hs

theorem closed_run {s t : State R σ} {labels : List (Label ι)} (hs : s.Coherent)
    (hclosed : s.Closed) (hguarded : Machine.Guarded (step fn finalTask) guard s labels)
    (h : Machine.run (step fn finalTask) s labels = some t) : t.Closed :=
  (Machine.invariant_guarded_run (I := fun s => s.Coherent ∧ s.Closed) _
    (fun _ _ _ hs hguard h => ⟨coherent_step hs.1 h, closed_step hs.1 hs.2 hguard h⟩)
    ⟨hs, hclosed⟩ hguarded h).2

/-- The object stays as the shutdown left it. -/
theorem object_run_of_returned {s t : State R σ} {labels : List (Label ι)} (hs : s.Coherent)
    (hclosed : s.Closed) (hreturned : s.shutdownPc = .returned)
    (hguarded : Machine.Guarded (step fn finalTask) guard s labels)
    (h : Machine.run (step fn finalTask) s labels = some t) :
    t.object = s.object ∧ t.history = s.history := by
  have hrun := Machine.invariant_guarded_run (step fn finalTask)
    (I := fun u => (u.Coherent ∧ u.Closed) ∧ u.shutdownPc = .returned ∧
      u.object = s.object ∧ u.history = s.history) ?_ ⟨⟨hs, hclosed⟩, hreturned, rfl, rfl⟩
      hguarded h
  · exact hrun.2.2
  · rintro u a v ⟨⟨hu, huclosed⟩, hureturned, huobject, huhistory⟩ hguard hstep
    obtain ⟨hpc, hobject, hhistory⟩ := object_step_of_returned hu huclosed hureturned hstep
    exact ⟨⟨coherent_step hu hstep, closed_step hu huclosed hguard hstep⟩, hpc,
      hobject.trans huobject, hhistory.trans huhistory⟩

variable (fn finalTask) in
/-- The worker can run all that is posted. -/
theorem exists_drained (s : State R σ) :
    ∃ labels t, Machine.run (step fn finalTask) s labels = some t ∧ t.history = s.order := by
  obtain ⟨labels, t, ht, horder, hstuck⟩ := Machine.exists_run_disabled (step fn finalTask)
    (I := fun t => t.order = s.order) State.work (a := .worker)
    (fun u v hu h => ⟨(order_workerStep h).trans hu, work_workerStep h⟩) (s := s) rfl
  exact ⟨labels, t, ht, (history_eq_order_of_workerStep hstuck).2.trans horder⟩

/-- A function that is posted behind the handler of the shutdown can start behind it. -/
theorem not_sealed_of_posted_behind {s t : State R σ} {i : ι} (hs : s.Coherent)
    (hpast : s.shutdownPc.pastPost = true) (h : postStep s i = some t) :
    ∃ after u, Machine.run (step fn finalTask) t after = some u ∧ ¬ u.Sealed := by
  obtain ⟨labels, u, hu, hhistory⟩ := exists_drained fn finalTask t
  obtain ⟨before, after, horder⟩ := List.append_of_mem (hs.shutdownPosted.mpr hpast)
  refine ⟨labels, u, hu, fun hsealed => ?_⟩
  have hsplit : u.history = before ++ .shutdown :: (after ++ [.task i]) := by
    rw [hhistory, order_postStep h, horder]
    simp
  exact hsealed.final before _ hsplit i (List.mem_append_right _ (List.mem_singleton.mpr rfl))

/-- In every run a function starts at most once, a call returns the result of its function or,
if that is not run, the default, and no call is left behind. If no call posts behind the handler of
the shutdown, no function starts behind the final task and the object is not used once the shutdown
has returned; a call that does so can use the object after the final task. -/
theorem shutdown_seals_of_guarded {object : σ} {labels : List (Label ι)} {s : State R σ}
    (hs : Machine.run (step fn finalTask) (initial object) labels = some s) :
    ((∀ i, s.history.count (.task i) ≤ 1) ∧
        (∀ i value, s.calls i = .returned value →
          .task i ∈ s.history ∧ s.futures i = some value ∨
            .task i ∉ s.history ∧ value = default) ∧
        ∀ i, (∀ a ∈ [.check i, .post i, .wait i, .worker], step fn finalTask s a = none) →
          ∃ value, s.calls i = .returned value) ∧
      (Machine.Guarded (step fn finalTask) guard (initial object) labels →
        s.Sealed ∧ (s.shutdownPc = .returned → ∀ after t,
          Machine.Guarded (step fn finalTask) guard s after →
          Machine.run (step fn finalTask) s after = some t →
            t.object = s.object ∧ t.history = s.history)) ∧
      ∀ a t, step fn finalTask s a = some t → ¬ guard s a →
        ∃ after u, Machine.run (step fn finalTask) t after = some u ∧ ¬ u.Sealed := by
  have hcoherent := coherent_run hs
  refine ⟨⟨hcoherent.count_history_le, fun i value hi => hcoherent.returned_eq hi,
    fun i hstuck => hcoherent.returned_of_stuck hstuck⟩, fun hguarded => ?_, fun a t h hguard => ?_⟩
  · have hclosed : s.Closed :=
      closed_run (coherent_initial object) (fun h => absurd h List.not_mem_nil) hguarded hs
    refine ⟨hcoherent.sealed_of_closed hclosed, fun hreturned after t hafter ht => ?_⟩
    exact object_run_of_returned hcoherent hclosed hreturned hafter ht
  · cases a with
    | post i =>
      have hpast : s.shutdownPc.pastPost = true := by
        cases hpc : s.shutdownPc.pastPost with
        | false => exact absurd hpc hguard
        | true => rfl
      exact not_sealed_of_posted_behind hcoherent hpast h
    | _ => exact absurd trivial hguard

end Runs

end Coherent

/-- A function that reads the object, and a final task that drops it. -/
def readObject (_ : Bool) (object : Option ℕ) : Option ℕ × Option ℕ := (object, object)

def dropObject : Option (Option ℕ → Option ℕ) := some fun _ => none

/-- One call is answered before the shutdown, the other one comes after it. -/
def oneCallBefore : List (Label Bool) :=
  [.check true, .post true, .shutdownCheck, .shutdownPost, .worker, .worker, .wait true, .worker,
    .worker, .worker, .worker, .shutdownWait, .check false]

theorem shutdown_seals_of_guarded_oneCallBefore : ∃ s,
    Machine.run (step readObject dropObject) (initial (some 7)) oneCallBefore = some s ∧
      s.calls true = .returned (some 7) ∧ s.calls false = .returned none ∧
      s.shutdownPc = .returned ∧ s.Sealed := by
  refine ⟨_, rfl, rfl, rfl, rfl, ?_⟩
  have hs : Machine.run (step readObject dropObject) (initial (some 7)) oneCallBefore =
    some _ := rfl
  exact ((shutdown_seals_of_guarded hs).2.1 (by decide)).1

/-- A call that has read the flag in time posts behind the shutdown and reads what is dropped. -/
theorem not_sealed_behind_shutdown : ∃ s,
    Machine.run (step readObject dropObject) (initial (some 7)) [.check true, .shutdownCheck,
        .shutdownPost, .post true, .worker, .worker, .worker, .worker, .shutdownWait, .worker] =
      some s ∧ s.shutdownPc = .returned ∧ s.history = [.shutdown, .task true] ∧
      s.worker = .running true ∧ ¬ s.Sealed := by
  refine ⟨_, rfl, rfl, rfl, rfl, fun hsealed => ?_⟩
  exact hsealed.final [] [.task true] rfl true (List.mem_singleton.mpr rfl)

end SyncDispatchQueue

end Evrp
