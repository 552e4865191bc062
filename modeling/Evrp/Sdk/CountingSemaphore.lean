import Mathlib.Algebra.Order.Ring.Nat
import Evrp.Lib.Machine

/-!
# The counting semaphore on a mutex and a condition variable

`CountingSemaphore` keeps a count under `mu_` and lets `acquire` wait in `cv_`.
The model moves in the steps between which other threads can act: a call locks,
works on the count, notifies, and unlocks; a waiting call gives the mutex up,
is woken by a notification or for no reason at all, and has to lock again. The
count is compared with an atomic counter that serves the same calls, and a
waiting call is never left asleep on a positive count.
-/

namespace Evrp.CountingSemaphore

variable {ι : Type*}

/-- The three operations of the class. -/
inductive Op where
  | release
  | acquire
  | tryAcquire
  deriving DecidableEq, Repr

/-- Where the thread that holds `mu_` is. -/
inductive Section where
  /-- Before `++count_`, the predicate of the wait, or the test of `tryAcquire`. -/
  | locked (op : Op)
  /-- `release` before `notify_one`. -/
  | counted
  /-- The test succeeded, `--count_` comes next. -/
  | passed (op : Op)
  /-- Before the unlock, with the value that is returned. -/
  | leaving (op : Op) (result : Bool)
  deriving DecidableEq, Repr

/-- A finished call: who, what, and the value returned (`true` where there is none). -/
structure Done (ι : Type*) where
  caller : ι
  op : Op
  result : Bool
  deriving DecidableEq, Repr

/-- The members of the class, and the threads by the place where they are. -/
structure State (ι : Type*) where
  count : Int
  holder : Option (ι × Section)
  entering : List (ι × Op)
  sleeping : List ι
  woken : List ι
  returned : List (Done ι)
  deriving DecidableEq, Repr

def initial : State ι := ⟨0, none, [], [], [], []⟩

inductive Label (ι : Type*) where
  /-- A thread calls an operation and comes to the lock. -/
  | call (c : ι) (op : Op)
  /-- A calling thread gets the mutex. -/
  | lock (c : ι) (op : Op)
  /-- A thread that left the wait gets the mutex back. -/
  | relock (c : ι)
  /-- The thread that holds the mutex goes on. -/
  | move
  /-- `notify_one` picks a waiting thread. -/
  | notify (c : ι)
  /-- A wait ends without a notification. -/
  | spurious (c : ι)
  deriving DecidableEq, Repr

/-- The steps of calls already made, apart from unexplained wakeups. -/
def Label.inner : Label ι → Bool
  | .call _ _ => false
  | .spurious _ => false
  | _ => true

/-- What the thread inside the mutex does next; `notify_one` finds nobody here. -/
def moveHolder (s : State ι) (c : ι) : Section → Option (State ι)
  | .locked .release => some { s with count := s.count + 1, holder := some (c, .counted) }
  | .locked .acquire =>
    if 0 < s.count then some { s with holder := some (c, .passed .acquire) }
    else some { s with holder := none, sleeping := c :: s.sleeping }
  | .locked .tryAcquire =>
    if s.count = 0 then some { s with holder := some (c, .leaving .tryAcquire false) }
    else some { s with holder := some (c, .passed .tryAcquire) }
  | .counted =>
    if s.sleeping = [] then some { s with holder := some (c, .leaving .release true) } else none
  | .passed op => some { s with count := s.count - 1, holder := some (c, .leaving op true) }
  | .leaving op result =>
    some { s with holder := none, returned := s.returned ++ [⟨c, op, result⟩] }

variable [DecidableEq ι]

def step (s : State ι) : Label ι → Option (State ι)
  | .call c op => some { s with entering := (c, op) :: s.entering }
  | .lock c op =>
    if s.holder = none ∧ (c, op) ∈ s.entering then
      some { s with holder := some (c, .locked op), entering := s.entering.erase (c, op) }
    else none
  | .relock c =>
    if s.holder = none ∧ c ∈ s.woken then
      some { s with holder := some (c, .locked .acquire), woken := s.woken.erase c }
    else none
  | .move =>
    match s.holder with
    | some (c, place) => moveHolder s c place
    | none => none
  | .notify w =>
    match s.holder with
    | some (c, .counted) =>
      if w ∈ s.sleeping then
        some { s with
          holder := some (c, .leaving .release true)
          sleeping := s.sleeping.erase w
          woken := w :: s.woken }
      else none
    | _ => none
  | .spurious w =>
    if w ∈ s.sleeping then
      some { s with sleeping := s.sleeping.erase w, woken := w :: s.woken }
    else none

/-- Every transition of the semaphore with its guard. -/
inductive Steps : State ι → Label ι → State ι → Prop
  | call (s : State ι) (c : ι) (op : Op) :
      Steps s (.call c op) { s with entering := (c, op) :: s.entering }
  | lock (s : State ι) (c : ι) (op : Op) (hfree : s.holder = none)
      (hc : (c, op) ∈ s.entering) :
      Steps s (.lock c op)
        { s with holder := some (c, .locked op), entering := s.entering.erase (c, op) }
  | relock (s : State ι) (c : ι) (hfree : s.holder = none) (hc : c ∈ s.woken) :
      Steps s (.relock c)
        { s with holder := some (c, .locked .acquire), woken := s.woken.erase c }
  | increment (s : State ι) (c : ι) (hc : s.holder = some (c, .locked .release)) :
      Steps s .move { s with count := s.count + 1, holder := some (c, .counted) }
  | pass (s : State ι) (c : ι) (hc : s.holder = some (c, .locked .acquire))
      (hpos : 0 < s.count) :
      Steps s .move { s with holder := some (c, .passed .acquire) }
  | sleep (s : State ι) (c : ι) (hc : s.holder = some (c, .locked .acquire))
      (hzero : ¬ 0 < s.count) :
      Steps s .move { s with holder := none, sleeping := c :: s.sleeping }
  | refuse (s : State ι) (c : ι) (hc : s.holder = some (c, .locked .tryAcquire))
      (hzero : s.count = 0) :
      Steps s .move { s with holder := some (c, .leaving .tryAcquire false) }
  | grant (s : State ι) (c : ι) (hc : s.holder = some (c, .locked .tryAcquire))
      (hcount : s.count ≠ 0) :
      Steps s .move { s with holder := some (c, .passed .tryAcquire) }
  | notifyNobody (s : State ι) (c : ι) (hc : s.holder = some (c, .counted))
      (hnobody : s.sleeping = []) :
      Steps s .move { s with holder := some (c, .leaving .release true) }
  | notify (s : State ι) (c w : ι) (hc : s.holder = some (c, .counted)) (hw : w ∈ s.sleeping) :
      Steps s (.notify w) { s with
        holder := some (c, .leaving .release true)
        sleeping := s.sleeping.erase w
        woken := w :: s.woken }
  | decrement (s : State ι) (c : ι) (op : Op) (hc : s.holder = some (c, .passed op)) :
      Steps s .move { s with count := s.count - 1, holder := some (c, .leaving op true) }
  | unlock (s : State ι) (c : ι) (op : Op) (result : Bool)
      (hc : s.holder = some (c, .leaving op result)) :
      Steps s .move { s with holder := none, returned := s.returned ++ [⟨c, op, result⟩] }
  | spurious (s : State ι) (w : ι) (hw : w ∈ s.sleeping) :
      Steps s (.spurious w) { s with sleeping := s.sleeping.erase w, woken := w :: s.woken }

variable {s t : State ι} {a : Label ι} {labels : List (Label ι)}

theorem steps_of_moveHolder {c : ι} {place : Section} (hc : s.holder = some (c, place))
    (h : moveHolder s c place = some t) : Steps s .move t := by
  cases place with
  | locked op =>
    cases op with
    | release =>
      obtain rfl := Option.some.inj h
      exact .increment s c hc
    | acquire =>
      simp only [moveHolder] at h
      split at h
      · obtain rfl := Option.some.inj h
        exact .pass s c hc ‹_›
      · obtain rfl := Option.some.inj h
        exact .sleep s c hc ‹_›
    | tryAcquire =>
      simp only [moveHolder] at h
      split at h
      · obtain rfl := Option.some.inj h
        exact .refuse s c hc ‹_›
      · obtain rfl := Option.some.inj h
        exact .grant s c hc ‹_›
  | counted =>
    simp only [moveHolder, Option.ite_none_right_eq_some] at h
    obtain ⟨hnobody, h⟩ := h
    obtain rfl := Option.some.inj h
    exact .notifyNobody s c hc hnobody
  | passed op =>
    obtain rfl := Option.some.inj h
    exact .decrement s c op hc
  | leaving op result =>
    obtain rfl := Option.some.inj h
    exact .unlock s c op result hc

/-- Inversion of the step function. -/
theorem steps_of_step (h : step s a = some t) : Steps s a t := by
  cases a with
  | call c op =>
    obtain rfl := Option.some.inj h
    exact .call s c op
  | lock c op =>
    simp only [step, Option.ite_none_right_eq_some] at h
    obtain ⟨⟨hfree, hc⟩, h⟩ := h
    obtain rfl := Option.some.inj h
    exact .lock s c op hfree hc
  | relock c =>
    simp only [step, Option.ite_none_right_eq_some] at h
    obtain ⟨⟨hfree, hc⟩, h⟩ := h
    obtain rfl := Option.some.inj h
    exact .relock s c hfree hc
  | move =>
    cases hc : s.holder with
    | none => simp [step, hc] at h
    | some place =>
      simp only [step, hc] at h
      exact steps_of_moveHolder hc h
  | notify w =>
    simp only [step] at h
    split at h
    · rename_i c hc
      rw [Option.ite_none_right_eq_some] at h
      obtain ⟨hw, h⟩ := h
      obtain rfl := Option.some.inj h
      exact .notify s c w hc hw
    · cases h
  | spurious w =>
    simp only [step, Option.ite_none_right_eq_some] at h
    obtain ⟨hw, h⟩ := h
    obtain rfl := Option.some.inj h
    exact .spurious s w hw

/-! ## The atomic counter -/

/-- An atomic counter serves a finished call; `acquire` is not served at zero. -/
def atomic : ℕ → Done ι → Option ℕ
  | n, ⟨_, .release, true⟩ => some (n + 1)
  | n + 1, ⟨_, .acquire, true⟩ => some n
  | n + 1, ⟨_, .tryAcquire, true⟩ => some n
  | 0, ⟨_, .tryAcquire, false⟩ => some 0
  | _, _ => none

/-- The call inside the mutex once its work on the count is done. -/
def pending : Option (ι × Section) → List (Done ι)
  | some (c, .counted) => [⟨c, .release, true⟩]
  | some (c, .leaving op result) => [⟨c, op, result⟩]
  | _ => []

/-- The calls that had their effect, in the order of the effects. -/
def State.effects (s : State ι) : List (Done ι) := s.returned ++ pending s.holder

/-- The count is what an atomic counter shows after the same calls, and a call about to
decrement it found it positive. -/
structure Explained (s : State ι) : Prop where
  atomic : ∃ n : ℕ, s.count = n ∧ Machine.run atomic 0 s.effects = some n
  positive : ∀ c op, s.holder = some (c, .passed op) → op ≠ .release ∧ 0 < s.count

omit [DecidableEq ι] in
/-- The holder moved without an effect. -/
theorem Explained.silent (hs : Explained s) {holder : Option (ι × Section)}
    (hpending : pending holder = pending s.holder)
    (hpassed : ∀ c op, holder = some (c, .passed op) → op ≠ .release ∧ 0 < s.count)
    {entering : List (ι × Op)} {sleeping woken : List ι} :
    Explained ⟨s.count, holder, entering, sleeping, woken, s.returned⟩ := by
  refine ⟨?_, hpassed⟩
  simp only [State.effects, hpending]
  exact hs.atomic

omit [DecidableEq ι] in
/-- The holder had the effect of one call. -/
theorem Explained.effect (hs : Explained s) {holder : Option (ι × Section)} {count : Int}
    {d : Done ι} (hbefore : pending s.holder = []) (hafter : pending holder = [d])
    (hpassed : ∀ c op, holder ≠ some (c, .passed op))
    (hserve : ∀ n : ℕ, s.count = n → ∃ m : ℕ, count = m ∧ CountingSemaphore.atomic n d = some m) :
    Explained { s with count := count, holder := holder } := by
  obtain ⟨n, hn, hrun⟩ := hs.atomic
  obtain ⟨m, hm, hd⟩ := hserve n hn
  refine ⟨⟨m, hm, ?_⟩, fun c op h => absurd h (hpassed c op)⟩
  simp only [State.effects, hbefore, List.append_nil] at hrun
  simp only [State.effects, hafter]
  exact (Machine.run_concat_some _).mpr ⟨n, hrun, hd⟩

theorem explained_step (hs : Explained s) (h : step s a = some t) : Explained t := by
  cases steps_of_step h with
  | call c op => exact hs.silent rfl hs.positive
  | lock c op hfree hc => exact hs.silent (by rw [hfree]; rfl) (by rintro _ _ ⟨⟩)
  | relock c hfree hc => exact hs.silent (by rw [hfree]; rfl) (by rintro _ _ ⟨⟩)
  | increment c hc =>
    refine hs.effect (by rw [hc]; rfl) rfl (by rintro _ _ ⟨⟩) fun n hn => ⟨n + 1, ?_, rfl⟩
    rw [hn]
    rfl
  | pass c hc hpos =>
    refine hs.silent (by rw [hc]; rfl) ?_
    rintro _ _ ⟨⟩
    exact ⟨by decide, hpos⟩
  | sleep c hc hzero => exact hs.silent (by rw [hc]; rfl) (by rintro _ _ ⟨⟩)
  | refuse c hc hzero =>
    refine hs.effect (d := ⟨c, .tryAcquire, false⟩) (by rw [hc]; rfl) rfl (by rintro _ _ ⟨⟩)
      fun n hn => ⟨0, hzero, ?_⟩
    obtain rfl : n = 0 := by omega
    rfl
  | grant c hc hcount =>
    obtain ⟨n, hn, -⟩ := hs.atomic
    refine hs.silent (by rw [hc]; rfl) ?_
    rintro _ _ ⟨⟩
    exact ⟨by decide, by omega⟩
  | notifyNobody c hc hnobody => exact hs.silent (by rw [hc]; rfl) (by rintro _ _ ⟨⟩)
  | notify c w hc hw => exact hs.silent (by rw [hc]; rfl) (by rintro _ _ ⟨⟩)
  | decrement c op hc =>
    obtain ⟨hop, hpos⟩ := hs.positive c op hc
    refine hs.effect (d := ⟨c, op, true⟩) (by rw [hc]; rfl) rfl (by rintro _ _ ⟨⟩) fun n hn => ?_
    obtain ⟨m, rfl⟩ : ∃ m, n = m + 1 := ⟨n - 1, by omega⟩
    refine ⟨m, by omega, ?_⟩
    cases op with
    | release => exact absurd rfl hop
    | acquire => rfl
    | tryAcquire => rfl
  | unlock c op result hc =>
    refine ⟨?_, by rintro _ _ ⟨⟩⟩
    have heffects : s.returned ++ [⟨c, op, result⟩] = s.effects := by
      rw [State.effects, hc]
      rfl
    simp only [State.effects, pending, List.append_nil, heffects]
    exact hs.atomic
  | spurious w hw => exact hs.silent rfl hs.positive

theorem explained_run (h : Machine.run step initial labels = some s) : Explained s :=
  Machine.invariant_run step (fun _ _ _ => explained_step)
    ⟨⟨0, rfl, rfl⟩, by rintro _ _ ⟨⟩⟩ h

omit [DecidableEq ι] in
/-- One call of the atomic counter moves one permit at most. -/
theorem atomic_spec {n m : ℕ} {d : Done ι} (h : atomic n d = some m) :
    n + (if d.op = .release then 1 else 0) = m + (if d.op = .acquire then 1 else 0) +
      (if d.op = .tryAcquire ∧ d.result then 1 else 0) := by
  obtain ⟨c, op, result⟩ := d
  cases op <;> cases result <;> cases n <;> simp_all [atomic]

omit [DecidableEq ι] in
/-- The permits handed out and the permits left are the permits released. -/
theorem countP_release_of_atomic {n m : ℕ} {ds : List (Done ι)}
    (h : Machine.run atomic n ds = some m) :
    n + ds.countP (·.op = .release) =
      m + ds.countP (·.op = .acquire) + ds.countP (fun d => d.op = .tryAcquire ∧ d.result) := by
  induction ds generalizing n with
  | nil =>
    obtain rfl := Option.some.inj h
    rfl
  | cons d ds ih =>
    obtain ⟨k, hk, hrest⟩ := Option.bind_eq_some_iff.mp h
    have hcounts := ih hrest
    have hd := atomic_spec hk
    simp only [List.countP_cons, decide_eq_true_eq]
    omega

/-! ## No wakeup is lost -/

/-- The holder is about to use a permit or to wake somebody for it. -/
def claims : Option (ι × Section) → ℕ
  | some (_, .locked .acquire) => 1
  | some (_, .passed .acquire) => 1
  | some (_, .counted) => 1
  | _ => 0

omit [DecidableEq ι] in
theorem claims_le_one (holder : Option (ι × Section)) : claims holder ≤ 1 := by
  unfold claims
  split <;> omega

/-- Where somebody sleeps, every permit has a call that is awake for it. -/
def Awake (s : State ι) : Prop := s.sleeping ≠ [] → s.count ≤ s.woken.length + claims s.holder

theorem awake_step (hexplained : Explained s) (hs : Awake s) (h : step s a = some t) :
    Awake t := by
  obtain ⟨n, hn, -⟩ := hexplained.atomic
  cases steps_of_step h with
  | call c op => exact hs
  | lock c op hfree hc =>
    intro hsleeping
    have := hs hsleeping
    rw [hfree] at this
    simp only [claims] at this ⊢
    omega
  | relock c hfree hc =>
    intro hsleeping
    have := hs hsleeping
    have hlength := List.length_erase_add_one hc
    rw [hfree] at this
    simp only [claims] at this ⊢
    omega
  | increment c hc =>
    intro hsleeping
    have := hs hsleeping
    rw [hc] at this
    simp only [claims] at this ⊢
    omega
  | pass c hc hpos =>
    intro hsleeping
    have := hs hsleeping
    rw [hc] at this
    exact this
  | sleep c hc hzero =>
    intro _
    simp only [claims]
    omega
  | refuse c hc hzero =>
    intro _
    simp only [claims]
    omega
  | grant c hc hcount =>
    intro hsleeping
    have := hs hsleeping
    rw [hc] at this
    exact this
  | notifyNobody c hc hnobody => exact fun hsleeping => absurd hnobody hsleeping
  | notify c w hc hw =>
    intro _
    have := hs (List.ne_nil_of_mem hw)
    rw [hc] at this
    simp only [claims, List.length_cons] at this ⊢
    omega
  | decrement c op hc =>
    intro hsleeping
    have := hs hsleeping
    rw [hc] at this
    have hle := claims_le_one (some (c, Section.passed op))
    simp only [claims]
    omega
  | unlock c op result hc =>
    intro hsleeping
    have := hs hsleeping
    rw [hc] at this
    exact this
  | spurious w hw =>
    intro _
    have := hs (List.ne_nil_of_mem hw)
    simp only [List.length_cons] at this ⊢
    omega

theorem awake_run (h : Machine.run step initial labels = some s) : Awake s := by
  have hinvariant : Explained s ∧ Awake s := by
    refine Machine.invariant_run step (I := fun s => Explained s ∧ Awake s) ?_ ?_ h
    · exact fun _ _ _ hs h => ⟨explained_step hs.1 h, awake_step hs.1 hs.2 h⟩
    · exact ⟨⟨⟨0, rfl, rfl⟩, by rintro _ _ ⟨⟩⟩, fun hne => absurd rfl hne⟩
  exact hinvariant.2

/-! ## The calls in progress -/

/-- The operation of the call inside the mutex. -/
def Section.op : Section → Op
  | .locked op => op
  | .counted => .release
  | .passed op => op
  | .leaving op _ => op

/-- The calls of one operation, finished or not. -/
def State.calls (s : State ι) (op : Op) : ℕ :=
  s.entering.countP (·.2 = op) + s.holder.toList.countP (·.2.op = op) +
    (if op = .acquire then s.sleeping.length + s.woken.length else 0) +
    s.returned.countP (·.op = op)

/-- The label begins a call of the operation. -/
def Label.begins (op : Op) : Label ι → Bool
  | .call _ called => called = op
  | _ => false

omit [DecidableEq ι] in
/-- The holder went on inside its own operation. -/
theorem calls_of_holder {c : ι} {place place' : Section} {count : Int} (op : Op)
    (hc : s.holder = some (c, place)) (hop : place'.op = place.op) :
    State.calls { s with count := count, holder := some (c, place') } op = s.calls op := by
  simp only [State.calls, hc, Option.toList, List.countP_singleton, hop]

/-- A wait ended. -/
theorem calls_of_wake {w : ι} (op : Op) (hw : w ∈ s.sleeping) :
    State.calls { s with sleeping := s.sleeping.erase w, woken := w :: s.woken } op =
      s.calls op := by
  have hlength := List.length_erase_add_one hw
  simp only [State.calls, List.length_cons]
  split <;> omega

theorem calls_step (op : Op) (h : step s a = some t) :
    t.calls op = s.calls op + (if a.begins op then 1 else 0) := by
  cases steps_of_step h with
  | call c called =>
    by_cases hop : called = op
    · simp [State.calls, Label.begins, hop]
      omega
    · simp [State.calls, Label.begins, hop]
  | lock c called hfree hc =>
    have hperm := (List.perm_cons_erase hc).countP_eq (·.2 = op)
    by_cases hop : called = op
    · simp [State.calls, hfree, Label.begins, Section.op, hop] at hperm ⊢
      omega
    · simp [State.calls, hfree, Label.begins, Section.op, hop] at hperm ⊢
      omega
  | relock c hfree hc =>
    have hlength := List.length_erase_add_one hc
    by_cases hop : op = .acquire
    · simp [State.calls, hfree, Label.begins, Section.op, hop]
      omega
    · simp [State.calls, hfree, Label.begins, Section.op, hop, Ne.symm hop]
  | increment c hc => exact calls_of_holder op hc rfl
  | pass c hc hpos => exact calls_of_holder op hc rfl
  | sleep c hc hzero =>
    by_cases hop : op = .acquire
    · simp [State.calls, hc, Label.begins, Section.op, hop]
      omega
    · simp [State.calls, hc, Label.begins, Section.op, hop, Ne.symm hop]
  | refuse c hc hzero => exact calls_of_holder op hc rfl
  | grant c hc hcount => exact calls_of_holder op hc rfl
  | notifyNobody c hc hnobody => exact calls_of_holder op hc rfl
  | notify c w hc hw =>
    refine Eq.trans ?_ (calls_of_wake op hw)
    exact calls_of_holder (s := { s with
      sleeping := s.sleeping.erase w, woken := w :: s.woken }) op hc rfl
  | decrement c called hc => exact calls_of_holder op hc rfl
  | unlock c called result hc =>
    by_cases hop : called = op
    · simp [State.calls, hc, Label.begins, Section.op, hop]
      omega
    · simp [State.calls, hc, Label.begins, Section.op, hop]
  | spurious w hw => exact calls_of_wake op hw

theorem calls_run_from (op : Op) (h : Machine.run step s labels = some t) :
    t.calls op = s.calls op + labels.countP (Label.begins op) := by
  induction labels generalizing s with
  | nil =>
    obtain rfl := Option.some.inj h
    rfl
  | cons a labels ih =>
    obtain ⟨u, hu, hrest⟩ := Option.bind_eq_some_iff.mp h
    rw [ih hrest, calls_step op hu, List.countP_cons]
    omega

/-- No call is lost and none is invented. -/
theorem calls_run (op : Op) (h : Machine.run step initial labels = some s) :
    s.calls op = labels.countP (Label.begins op) := by
  rw [calls_run_from op h]
  simp [State.calls, initial]

/-- The steps a call still takes at most before it returns or sleeps. -/
def Op.budget : Op → ℕ
  | .release => 8
  | _ => 4

def Section.budget : Section → ℕ
  | .locked op => op.budget - 1
  | .counted => 6
  | .passed _ => 2
  | .leaving _ _ => 1

/-- A notification pays for the steps of the call it wakes. -/
def budget (s : State ι) : ℕ :=
  (s.entering.map (·.2.budget)).sum + (s.holder.elim 0 (·.2.budget)) + 4 * s.woken.length

theorem budget_step (ha : a.inner = true) (h : step s a = some t) : budget t < budget s := by
  cases steps_of_step h with
  | call c op => cases ha
  | lock c op hfree hc =>
    have hperm := ((List.perm_cons_erase hc).map (·.2.budget)).sum_nat
    have hpos : 0 < op.budget := by cases op <;> decide
    simp only [budget, hfree, Option.elim, Section.budget, List.map_cons, List.sum_cons] at hperm ⊢
    omega
  | relock c hfree hc =>
    have hlength := List.length_erase_add_one hc
    simp only [budget, hfree, Option.elim, Section.budget, Op.budget]
    omega
  | increment c hc => simp [budget, hc, Section.budget, Op.budget]
  | pass c hc hpos => simp [budget, hc, Section.budget, Op.budget]
  | sleep c hc hzero => simp [budget, hc, Section.budget, Op.budget]
  | refuse c hc hzero => simp [budget, hc, Section.budget, Op.budget]
  | grant c hc hcount => simp [budget, hc, Section.budget, Op.budget]
  | notifyNobody c hc hnobody => simp [budget, hc, Section.budget]
  | notify c w hc hw =>
    simp only [budget, hc, Option.elim, Section.budget, List.length_cons]
    omega
  | decrement c op hc => simp [budget, hc, Section.budget]
  | unlock c op result hc => simp [budget, hc, Section.budget]
  | spurious w hw => cases ha

/-- The calls already made cannot go on by themselves. -/
def Settled (s : State ι) : Prop := ∀ a : Label ι, a.inner = true → step s a = none

/-- Only sleeping calls stop by themselves. -/
theorem Settled.outside (hs : Settled s) : s.holder = none ∧ s.entering = [] ∧ s.woken = [] := by
  have hfree : s.holder = none := by
    cases hholder : s.holder with
    | none => rfl
    | some place =>
      obtain ⟨c, place⟩ := place
      have hmove := hs .move rfl
      simp only [step, hholder] at hmove
      cases place with
      | locked op =>
        cases op with
        | release => cases hmove
        | acquire =>
          simp only [moveHolder] at hmove
          split at hmove <;> cases hmove
        | tryAcquire =>
          simp only [moveHolder] at hmove
          split at hmove <;> cases hmove
      | counted =>
        -- Somebody sleeps, so the notification is enabled.
        cases hsleeping : s.sleeping with
        | nil => simp [moveHolder, hsleeping] at hmove
        | cons w rest =>
          have hnotify := hs (.notify w) rfl
          simp [step, hholder, hsleeping] at hnotify
      | passed op => cases hmove
      | leaving op result => cases hmove
  refine ⟨hfree, ?_, ?_⟩
  · cases hentering : s.entering with
    | nil => rfl
    | cons call rest =>
      have hlock := hs (.lock call.1 call.2) rfl
      simp [step, hfree, hentering] at hlock
  · cases hwoken : s.woken with
    | nil => rfl
    | cons c rest =>
      have hrelock := hs (.relock c) rfl
      simp [step, hfree, hwoken] at hrelock

/-- For every interleaving, unexplained wakeups included, an atomic counter that serves the
same calls in the order of their effects arrives at the count and gives the same values. The
calls made settle within a bounded number of steps, and then a call sleeps only on a count
of zero: as many `acquire` calls have returned as were made or as there were permits,
whichever is less. -/
theorem acquires_served_exactly (h : Machine.run step initial labels = some s) :
    Machine.run atomic 0 s.effects = some s.count.toNat ∧ 0 ≤ s.count ∧
      s.returned <+: s.effects ∧
      (∀ more t, (∀ a ∈ more, a.inner = true) → Machine.run step s more = some t →
        more.length ≤ budget s) ∧
      (∃ more t, (∀ a ∈ more, a.inner = true) ∧ Machine.run step s more = some t ∧ Settled t) ∧
      (Settled s → (s.sleeping = [] ∨ s.count = 0) ∧
        s.returned.countP (·.op = .release) = labels.countP (Label.begins .release) ∧
        s.returned.countP (·.op = .tryAcquire) = labels.countP (Label.begins .tryAcquire) ∧
        s.returned.countP (·.op = .acquire) = min (labels.countP (Label.begins .acquire))
          (labels.countP (Label.begins .release) -
            s.returned.countP (fun d => d.op = .tryAcquire ∧ d.result))) := by
  obtain ⟨n, hn, hatomic⟩ := (explained_run h).atomic
  have hlower (s : State ι) (a : Label ι) (t : State ι) (_ : True) (ha : a.inner = true)
      (h : step s a = some t) : True ∧ budget t < budget s := ⟨trivial, budget_step ha h⟩
  refine ⟨?_, by omega, List.prefix_append _ _, ?_, ?_, ?_⟩
  · rw [hatomic, hn, Int.toNat_natCast]
  · intro more t hmore hrun
    have := Machine.length_le_of_measure step hlower trivial
      ((Machine.guarded_iff_forall_mem step hrun).mpr hmore) hrun
    omega
  · obtain ⟨more, t, hguarded, hrun, hsettled⟩ := Machine.exists_run_settled step
      budget hlower (s := s) trivial
    exact ⟨more, t, (Machine.guarded_iff_forall_mem step hrun).mp hguarded, hrun, hsettled⟩
  · intro hsettled
    obtain ⟨hholder, hentering, hwoken⟩ := hsettled.outside
    have hsleeping : s.sleeping = [] ∨ s.count = 0 := by
      by_cases hempty : s.sleeping = []
      · exact Or.inl hempty
      · have hawake := awake_run h hempty
        rw [hwoken, hholder] at hawake
        simp only [claims, List.length_nil] at hawake
        omega
    have hrelease := calls_run .release h
    have hacquire := calls_run .acquire h
    have htry := calls_run .tryAcquire h
    simp [State.calls, hholder, hentering, hwoken] at hrelease hacquire htry
    have hpermits := countP_release_of_atomic hatomic
    simp only [State.effects, hholder, pending, List.append_nil] at hpermits
    have hlength : s.sleeping.length = 0 ∨ n = 0 := by
      rcases hsleeping with hempty | hzero
      · exact Or.inl (List.length_eq_zero_iff.mpr hempty)
      · exact Or.inr (by omega)
    refine ⟨hsleeping, hrelease, htry, ?_⟩
    simp only [Bool.decide_and, Bool.decide_eq_true] at hpermits ⊢
    omega

/-- A waiting call is woken for no reason, sleeps again, and is served by a later release. -/
def wokenEarly : List (Label ℕ) :=
  [.call 0 .acquire, .lock 0 .acquire, .move, .spurious 0, .relock 0, .move,
    .call 1 .release, .lock 1 .release, .move, .notify 0, .call 2 .tryAcquire, .move,
    .lock 2 .tryAcquire, .move, .move, .move, .relock 0, .move]

theorem acquires_served_exactly_wokenEarly :
    ∃ s, Machine.run step initial wokenEarly = some s ∧ s.sleeping = [0] ∧
      s.returned = [⟨1, .release, true⟩, ⟨2, .tryAcquire, true⟩] ∧
      Machine.run atomic 0 s.effects = some 0 ∧
      (Settled s → s.returned.countP (·.op = .acquire) = min 1 (1 - 1)) := by
  have h : Machine.run step initial wokenEarly = some _ := rfl
  obtain ⟨hatomic, -, -, -, -, hsettled⟩ := acquires_served_exactly h
  exact ⟨_, h, rfl, rfl, hatomic, fun hs => (hsettled hs).2.2.2⟩

end Evrp.CountingSemaphore
