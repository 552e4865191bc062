import Evrp.Lib.Sequential
import Evrp.Sdk.LogRelay

/-!
# One log line, many streams

Every stream of the device's log service has a buffer of its own. A log call
copies the list of buffers under the lock and pushes its line to the copies
without it, so streams come and go between the pushes of one call. A line is
named by the call it comes from; a buffer never looks at its messages.
-/

namespace Evrp

namespace LogFanout

open LogRelay Sequential

/-- Where the handler of a stream stands: its buffer is in the list from the registration until
the handler takes it out. -/
inductive StreamPc where
  | entry
  | registered
  | leaving
  | returned
  deriving DecidableEq, Repr

/-- Where a log call stands; the list is what is left of its copy. -/
inductive PublishPc (ι : Type*) where
  | idle
  | checked
  | pushing (snap : List ι)
  | returned
  deriving DecidableEq, Repr

/-- A stream: its buffer, the lines its handler has taken out, and all that was ever pushed. -/
structure Stream (κ : Type*) where
  pc : StreamPc
  buffer : AsyncLogBuffer κ
  popped : List κ
  pushed : List κ

/-- A stream whose handler has not begun. -/
def Stream.new {κ : Type*} : Stream κ := ⟨.entry, .empty, [], []⟩

/-- The buffer of the stream is in the list. -/
def Stream.subscribed {κ : Type*} (st : Stream κ) : Bool :=
  st.pc == .registered || st.pc == .leaving

structure State (ι κ : Type*) where
  threshold : LogLevel
  subscriberBuffers : List ι
  streams : ι → Stream κ
  calls : κ → PublishPc ι

/-- No stream and no log call has begun. -/
def initial {ι κ : Type*} (threshold : LogLevel) : State ι κ :=
  ⟨threshold, [], fun _ => .new, fun _ => .idle⟩

/-- A step of a stream, of a log call, or a change of the threshold. -/
inductive Label (ι κ : Type*) where
  | setLevel (level : LogLevel)
  | subscribe (i : ι)
  | pop (i : ι)
  | leave (i : ι)
  | unregister (i : ι)
  | check (k : κ)
  | snapshot (k : κ)
  | push (k : κ)
  | finish (k : κ)
  deriving DecidableEq, Repr

variable {ι κ : Type*}

/-- A weak pointer of the list can be locked while the handler of its stream holds the buffer. -/
def State.live (s : State ι κ) : List ι :=
  s.subscriberBuffers.filter fun i => (s.streams i).subscribed

/-- What holds of a stream: its lines were pushed in their order. -/
structure Stream.Ordered (st : Stream κ) : Prop where
  nodup : st.pushed.Nodup
  isOpen : st.buffer.closed = false
  sublist : (st.popped ++ st.buffer.queue).Sublist st.pushed

theorem Stream.Ordered.setPc {st : Stream κ} (h : st.Ordered) (pc : StreamPc) :
    ({ st with pc := pc } : Stream κ).Ordered := ⟨h.nodup, h.isOpen, h.sublist⟩

/-- What holds in every run. -/
structure State.Coherent (s : State ι κ) : Prop where
  nodup : s.subscriberBuffers.Nodup
  subscribed : ∀ i, i ∈ s.subscriberBuffers ↔ (s.streams i).subscribed = true
  ordered : ∀ i, (s.streams i).Ordered
  snap : ∀ k snap, s.calls k = .pushing snap →
    snap.Nodup ∧ ∀ i ∈ snap, k ∉ (s.streams i).pushed
  unpublished : ∀ k, s.calls k = .idle ∨ s.calls k = .checked → ∀ i, k ∉ (s.streams i).pushed

theorem coherent_initial (threshold : LogLevel) : (initial threshold : State ι κ).Coherent where
  nodup := List.nodup_nil
  subscribed i := by simp [initial, Stream.new, Stream.subscribed]
  ordered i := ⟨List.nodup_nil, rfl, List.Sublist.refl _⟩
  snap k snap h := by cases h
  unpublished k _ i := List.not_mem_nil

/-- No weak pointer of the list has expired. -/
theorem State.Coherent.live_eq {s : State ι κ} (hs : s.Coherent) : s.live = s.subscriberBuffers :=
  List.filter_eq_self.mpr fun i hi => (hs.subscribed i).mp hi

section Steps

variable [DecidableEq ι] [DecidableEq κ]

def State.setStream (s : State ι κ) (i : ι) (st : Stream κ) : State ι κ :=
  { s with streams := Function.update s.streams i st }

def State.setCall (s : State ι κ) (k : κ) (pc : PublishPc ι) : State ι κ :=
  { s with calls := Function.update s.calls k pc }

def subscribeStep (s : State ι κ) (i : ι) : Option (State ι κ) :=
  match (s.streams i).pc with
  | .entry => some { s.setStream i { s.streams i with pc := .registered } with
      subscriberBuffers := s.subscriberBuffers ++ [i] }
  | _ => none

/-- The handler takes a line out of its buffer, if there is one in time, and writes it. -/
def popStep (s : State ι κ) (i : ι) : Option (State ι κ) :=
  match (s.streams i).pc with
  | .registered =>
    let r := (s.streams i).buffer.waitPopFor
    some (s.setStream i { s.streams i with
      buffer := r.2
      popped := (s.streams i).popped ++ r.1.toList })
  | _ => none

/-- The loop of the handler ends: cancelled, at the end of the peer's messages, or because a
write has failed. -/
def leaveStep (s : State ι κ) (i : ι) : Option (State ι κ) :=
  match (s.streams i).pc with
  | .registered => some (s.setStream i { s.streams i with pc := .leaving })
  | _ => none

def unregisterStep (s : State ι κ) (i : ι) : Option (State ι κ) :=
  match (s.streams i).pc with
  | .leaving => some { s.setStream i { s.streams i with pc := .returned } with
      subscriberBuffers := s.live.filter (· ≠ i) }
  | _ => none

variable (lib : Library) (level : κ → LogLevel)

/-- A line below the threshold is not published. -/
def checkStep (s : State ι κ) (k : κ) : Option (State ι κ) :=
  match s.calls k with
  | .idle =>
    some (s.setCall k (if lib.value (level k) < lib.value s.threshold then .returned else .checked))
  | _ => none

def snapshotStep (s : State ι κ) (k : κ) : Option (State ι κ) :=
  match s.calls k with
  | .checked => some { s.setCall k (.pushing s.live) with subscriberBuffers := s.live }
  | _ => none

def pushStep (s : State ι κ) (k : κ) : Option (State ι κ) :=
  match s.calls k with
  | .pushing (i :: rest) => some ((s.setStream i { s.streams i with
      buffer := (s.streams i).buffer.push k
      pushed := (s.streams i).pushed ++ [k] }).setCall k (.pushing rest))
  | _ => none

def finishStep (s : State ι κ) (k : κ) : Option (State ι κ) :=
  match s.calls k with
  | .pushing [] => some (s.setCall k .returned)
  | _ => none

def step (s : State ι κ) : Label ι κ → Option (State ι κ)
  | .setLevel level => some { s with threshold := level }
  | .subscribe i => subscribeStep s i
  | .pop i => popStep s i
  | .leave i => leaveStep s i
  | .unregister i => unregisterStep s i
  | .check k => checkStep lib level s k
  | .snapshot k => snapshotStep s k
  | .push k => pushStep s k
  | .finish k => finishStep s k

end Steps

/-! ## Streams -/

section Streams

variable [DecidableEq ι] {s t : State ι κ} {i : ι}

@[simp] theorem State.setStream_streams_self (s : State ι κ) (i : ι) (st : Stream κ) :
    (s.setStream i st).streams i = st := Function.update_self ..

theorem State.setStream_streams_of_ne (s : State ι κ) {i j : ι} (h : j ≠ i) (st : Stream κ) :
    (s.setStream i st).streams j = s.streams j := Function.update_of_ne h ..

theorem subscribeStep_eq (h : subscribeStep s i = some t) : (s.streams i).pc = .entry ∧
    t = { s.setStream i { s.streams i with pc := .registered } with
      subscriberBuffers := s.subscriberBuffers ++ [i] } := by
  unfold subscribeStep at h
  split at h
  · exact ⟨‹_›, (Option.some.inj h).symm⟩
  · cases h

theorem popStep_eq (h : popStep s i = some t) : (s.streams i).pc = .registered ∧
    t = s.setStream i { s.streams i with
      buffer := (s.streams i).buffer.waitPopFor.2
      popped := (s.streams i).popped ++ (s.streams i).buffer.waitPopFor.1.toList } := by
  unfold popStep at h
  split at h
  · exact ⟨‹_›, (Option.some.inj h).symm⟩
  · cases h

theorem leaveStep_eq (h : leaveStep s i = some t) : (s.streams i).pc = .registered ∧
    t = s.setStream i { s.streams i with pc := .leaving } := by
  unfold leaveStep at h
  split at h
  · exact ⟨‹_›, (Option.some.inj h).symm⟩
  · cases h

theorem unregisterStep_eq (h : unregisterStep s i = some t) : (s.streams i).pc = .leaving ∧
    t = { s.setStream i { s.streams i with pc := .returned } with
      subscriberBuffers := s.live.filter (· ≠ i) } := by
  unfold unregisterStep at h
  split at h
  · exact ⟨‹_›, (Option.some.inj h).symm⟩
  · cases h

/-- A stream moves without touching the list or what was pushed. -/
theorem State.Coherent.setStream (hs : s.Coherent) {st : Stream κ} (hordered : st.Ordered)
    (hsubscribed : st.subscribed = (s.streams i).subscribed)
    (hpushed : st.pushed = (s.streams i).pushed) : (s.setStream i st).Coherent := by
  have hsame : ∀ j, ((s.setStream i st).streams j).pushed = (s.streams j).pushed := by
    intro j
    by_cases hj : j = i
    · subst hj
      rw [State.setStream_streams_self, hpushed]
    · rw [State.setStream_streams_of_ne s hj]
  refine ⟨hs.nodup, fun j => ?_, fun j => ?_, fun k snap hk => ?_, fun k hk j => ?_⟩
  · by_cases hj : j = i
    · subst hj
      rw [State.setStream_streams_self, hsubscribed]
      exact hs.subscribed j
    · rw [State.setStream_streams_of_ne s hj]
      exact hs.subscribed j
  · by_cases hj : j = i
    · subst hj
      rw [State.setStream_streams_self]
      exact hordered
    · rw [State.setStream_streams_of_ne s hj]
      exact hs.ordered j
  · simp only [hsame]
    exact hs.snap k snap hk
  · rw [hsame]
    exact hs.unpublished k hk j

/-- A stream enters or leaves the list. -/
theorem State.Coherent.relist (hs : s.Coherent) {pc : StreamPc} {buffers : List ι}
    (hnodup : buffers.Nodup)
    (hmem : ∀ j, j ∈ buffers ↔
      ((s.setStream i { s.streams i with pc := pc }).streams j).subscribed = true) :
    ({ s.setStream i { s.streams i with pc := pc } with
      subscriberBuffers := buffers } : State ι κ).Coherent := by
  have hsame : ∀ j, ((s.setStream i { s.streams i with pc := pc }).streams j).pushed =
      (s.streams j).pushed ∧
      ((s.setStream i { s.streams i with pc := pc }).streams j).Ordered := by
    intro j
    by_cases hj : j = i
    · subst hj
      rw [State.setStream_streams_self]
      exact ⟨rfl, (hs.ordered j).setPc pc⟩
    · rw [State.setStream_streams_of_ne s hj]
      exact ⟨rfl, hs.ordered j⟩
  refine ⟨hnodup, hmem, fun j => (hsame j).2, fun k snap hk => ?_, fun k hk j => ?_⟩
  · obtain ⟨hsnap, hfresh⟩ := hs.snap k snap hk
    exact ⟨hsnap, fun j hj => (hsame j).1 ▸ hfresh j hj⟩
  · exact (hsame j).1 ▸ hs.unpublished k hk j

theorem coherent_subscribeStep (hs : s.Coherent) (h : subscribeStep s i = some t) :
    t.Coherent := by
  obtain ⟨hentry, rfl⟩ := subscribeStep_eq h
  have hnew : i ∉ s.subscriberBuffers := by
    rw [hs.subscribed, Stream.subscribed, hentry]
    decide
  refine hs.relist (List.nodup_append.mpr ⟨hs.nodup, List.nodup_singleton i, ?_⟩) fun j => ?_
  · rintro a ha b hb rfl
    exact hnew (List.mem_singleton.mp hb ▸ ha)
  · by_cases hj : j = i
    · subst hj
      rw [State.setStream_streams_self]
      simp [Stream.subscribed]
    · rw [State.setStream_streams_of_ne s hj, ← hs.subscribed]
      simp [hj]

theorem coherent_unregisterStep (hs : s.Coherent) (h : unregisterStep s i = some t) :
    t.Coherent := by
  obtain ⟨-, rfl⟩ := unregisterStep_eq h
  rw [hs.live_eq]
  refine hs.relist (hs.nodup.filter _) fun j => ?_
  by_cases hj : j = i
  · subst hj
    rw [State.setStream_streams_self]
    simp [Stream.subscribed]
  · rw [State.setStream_streams_of_ne s hj, ← hs.subscribed]
    simp [hj]

omit [DecidableEq ι] in
/-- A pop moves the front line. -/
theorem Stream.Ordered.pop {st : Stream κ} (h : st.Ordered) :
    ({ st with
      buffer := st.buffer.waitPopFor.2
      popped := st.popped ++ st.buffer.waitPopFor.1.toList } : Stream κ).Ordered := by
  obtain ⟨pc, ⟨queue, closed⟩, popped, pushed⟩ := st
  obtain ⟨hnodup, hopen, hsublist⟩ := h
  cases queue with
  | nil => exact ⟨hnodup, hopen, by simpa [AsyncLogBuffer.waitPopFor] using hsublist⟩
  | cons k queue => exact ⟨hnodup, hopen, by simpa [AsyncLogBuffer.waitPopFor] using hsublist⟩

theorem coherent_popStep (hs : s.Coherent) (h : popStep s i = some t) : t.Coherent := by
  obtain ⟨-, rfl⟩ := popStep_eq h
  exact hs.setStream (hs.ordered i).pop rfl rfl

theorem coherent_leaveStep (hs : s.Coherent) (h : leaveStep s i = some t) : t.Coherent := by
  obtain ⟨hregistered, rfl⟩ := leaveStep_eq h
  refine hs.setStream ((hs.ordered i).setPc .leaving) ?_ rfl
  simp [Stream.subscribed, hregistered]

end Streams

/-! ## Log calls -/

section Calls

variable [DecidableEq κ] {s t : State ι κ} {k : κ}

@[simp] theorem State.setCall_calls_self (s : State ι κ) (k : κ) (pc : PublishPc ι) :
    (s.setCall k pc).calls k = pc := Function.update_self ..

theorem State.setCall_calls_of_ne (s : State ι κ) {k l : κ} (h : l ≠ k) (pc : PublishPc ι) :
    (s.setCall k pc).calls l = s.calls l := Function.update_of_ne h ..

theorem checkStep_eq {lib : Library} {level : κ → LogLevel} (h : checkStep lib level s k = some t) :
    s.calls k = .idle ∧ t = s.setCall k
      (if lib.value (level k) < lib.value s.threshold then .returned else .checked) := by
  unfold checkStep at h
  split at h
  · exact ⟨‹_›, (Option.some.inj h).symm⟩
  · cases h

omit [DecidableEq κ] in
/-- A check ends the call or lets it go on. -/
theorem check_cases (lib : Library) (level : κ → LogLevel) (s : State ι κ) (k : κ) :
    (if lib.value (level k) < lib.value s.threshold then .returned else .checked) =
        (.returned : PublishPc ι) ∨
      (if lib.value (level k) < lib.value s.threshold then .returned else .checked) =
        (.checked : PublishPc ι) := by
  split
  · exact Or.inl rfl
  · exact Or.inr rfl

theorem snapshotStep_eq (h : snapshotStep s k = some t) : s.calls k = .checked ∧
    t = { s.setCall k (.pushing s.live) with subscriberBuffers := s.live } := by
  unfold snapshotStep at h
  split at h
  · exact ⟨‹_›, (Option.some.inj h).symm⟩
  · cases h

theorem finishStep_eq (h : finishStep s k = some t) :
    s.calls k = .pushing [] ∧ t = s.setCall k .returned := by
  unfold finishStep at h
  split at h
  · exact ⟨‹_›, (Option.some.inj h).symm⟩
  · cases h

/-- A call moves without touching the streams. -/
theorem State.Coherent.setCall (hs : s.Coherent) {pc : PublishPc ι}
    (hsnap : ∀ snap, pc = .pushing snap → snap.Nodup ∧ ∀ i ∈ snap, k ∉ (s.streams i).pushed)
    (hidle : pc = .idle ∨ pc = .checked → ∀ i, k ∉ (s.streams i).pushed) :
    (s.setCall k pc).Coherent := by
  refine ⟨hs.nodup, hs.subscribed, hs.ordered, fun l snap hl => ?_, fun l hl => ?_⟩
  · by_cases heq : l = k
    · subst heq
      rw [State.setCall_calls_self] at hl
      exact hsnap snap hl
    · rw [State.setCall_calls_of_ne s heq] at hl
      exact hs.snap l snap hl
  · by_cases heq : l = k
    · subst heq
      rw [State.setCall_calls_self] at hl
      exact hidle hl
    · rw [State.setCall_calls_of_ne s heq] at hl
      exact hs.unpublished l hl

theorem coherent_checkStep {lib : Library} {level : κ → LogLevel} (hs : s.Coherent)
    (h : checkStep lib level s k = some t) : t.Coherent := by
  obtain ⟨hidle, rfl⟩ := checkStep_eq h
  refine hs.setCall (fun snap hsnap => ?_) fun _ => hs.unpublished k (Or.inl hidle)
  rcases check_cases lib level s k with hpc | hpc <;> cases hpc.symm.trans hsnap

theorem coherent_snapshotStep (hs : s.Coherent) (h : snapshotStep s k = some t) :
    t.Coherent := by
  obtain ⟨hchecked, rfl⟩ := snapshotStep_eq h
  rw [hs.live_eq]
  refine hs.setCall (fun snap hsnap => ?_) fun hpc => ?_
  · obtain rfl := PublishPc.pushing.inj hsnap
    exact ⟨hs.nodup, fun i _ => hs.unpublished k (Or.inr hchecked) i⟩
  · rcases hpc with hpc | hpc <;> cases hpc

theorem coherent_finishStep (hs : s.Coherent) (h : finishStep s k = some t) : t.Coherent := by
  obtain ⟨-, rfl⟩ := finishStep_eq h
  refine hs.setCall (fun snap hsnap => ?_) fun hpc => ?_
  · cases hsnap
  · rcases hpc with hpc | hpc <;> cases hpc

end Calls

section Runs

variable [DecidableEq ι] [DecidableEq κ] {s t : State ι κ} {k : κ}

theorem pushStep_eq (h : pushStep s k = some t) : ∃ j rest, s.calls k = .pushing (j :: rest) ∧
    t = (s.setStream j { s.streams j with
      buffer := (s.streams j).buffer.push k
      pushed := (s.streams j).pushed ++ [k] }).setCall k (.pushing rest) := by
  unfold pushStep at h
  split at h
  · exact ⟨_, _, ‹_›, (Option.some.inj h).symm⟩
  · cases h

omit [DecidableEq ι] [DecidableEq κ] in
/-- A push drops old lines at most. -/
theorem Stream.Ordered.push {st : Stream κ} (h : st.Ordered) (hk : k ∉ st.pushed) :
    ({ st with buffer := st.buffer.push k, pushed := st.pushed ++ [k] } : Stream κ).Ordered := by
  obtain ⟨hnodup, hopen, hsublist⟩ := h
  refine ⟨List.concat_eq_append ▸ hnodup.concat hk, ?_, ?_⟩
  · simp [AsyncLogBuffer.push, hopen]
  · have hdrop := (AsyncLogBuffer.dropOldest_suffix st.buffer.queue).sublist
    simp only [AsyncLogBuffer.push, hopen, Bool.false_eq_true, if_false, ← List.append_assoc]
    exact ((List.Sublist.append_left hdrop st.popped).trans hsublist).append
      (List.Sublist.refl [k])

/-- A push adds the line of its call to one stream. -/
theorem pushed_pushStep {i j : ι} {rest : List ι} (l : κ)
    (ht : t = (s.setStream j { s.streams j with
      buffer := (s.streams j).buffer.push k
      pushed := (s.streams j).pushed ++ [k] }).setCall k (.pushing rest)) :
    l ∈ (t.streams i).pushed ↔ l ∈ (s.streams i).pushed ∨ l = k ∧ i = j := by
  subst ht
  change l ∈ ((s.setStream j _).streams i).pushed ↔ _
  by_cases hi : i = j
  · subst hi
    rw [State.setStream_streams_self]
    simp
  · rw [State.setStream_streams_of_ne s hi]
    simp [hi]

theorem coherent_pushStep (hs : s.Coherent) (h : pushStep s k = some t) : t.Coherent := by
  obtain ⟨j, rest, hpushing, ht⟩ := pushStep_eq h
  obtain ⟨hnodup, hfresh⟩ := hs.snap k _ hpushing
  obtain ⟨hj, hrest⟩ := List.nodup_cons.mp hnodup
  have hpushed := fun i l => pushed_pushStep (i := i) l ht
  have hcalls : ∀ l, l ≠ k → t.calls l = s.calls l := by
    intro l hl
    rw [ht, State.setCall_calls_of_ne _ hl]
    rfl
  have hcall : t.calls k = .pushing rest := by rw [ht, State.setCall_calls_self]
  have hstreams : ∀ i, (t.streams i).Ordered ∧
      (t.streams i).subscribed = (s.streams i).subscribed := by
    intro i
    rw [ht]
    change ((s.setStream j _).streams i).Ordered ∧ ((s.setStream j _).streams i).subscribed = _
    by_cases hi : i = j
    · subst hi
      rw [State.setStream_streams_self]
      exact ⟨(hs.ordered i).push (hfresh i (List.mem_cons_self ..)), rfl⟩
    · rw [State.setStream_streams_of_ne s hi]
      exact ⟨hs.ordered i, rfl⟩
  refine ⟨?_, fun i => ?_, fun i => (hstreams i).1, fun l snap hl => ?_, fun l hl i => ?_⟩
  · rw [ht]
    exact hs.nodup
  · rw [(hstreams i).2, ht]
    exact hs.subscribed i
  · by_cases heq : l = k
    · subst heq
      obtain rfl := PublishPc.pushing.inj (hcall.symm.trans hl)
      refine ⟨hrest, fun i hi => ?_⟩
      rw [hpushed, not_or]
      refine ⟨hfresh i (List.mem_cons_of_mem _ hi), fun hij => ?_⟩
      exact hj (hij.2 ▸ hi)
    · rw [hcalls l heq] at hl
      obtain ⟨hsnap, hnot⟩ := hs.snap l snap hl
      refine ⟨hsnap, fun i hi => ?_⟩
      rw [hpushed, not_or]
      exact ⟨hnot i hi, fun hij => heq hij.1⟩
  · have heq : l ≠ k := by
      rintro rfl
      rw [hcall] at hl
      rcases hl with hl | hl <;> cases hl
    rw [hcalls l heq] at hl
    rw [hpushed, not_or]
    exact ⟨hs.unpublished l hl i, fun hij => heq hij.1⟩

variable {lib : Library} {level : κ → LogLevel}

theorem coherent_step {a : Label ι κ} (hs : s.Coherent) (h : step lib level s a = some t) :
    t.Coherent := by
  cases a with
  | setLevel l =>
    obtain rfl := Option.some.inj h
    exact ⟨hs.nodup, hs.subscribed, hs.ordered, hs.snap, hs.unpublished⟩
  | subscribe i => exact coherent_subscribeStep hs h
  | pop i => exact coherent_popStep hs h
  | leave i => exact coherent_leaveStep hs h
  | unregister i => exact coherent_unregisterStep hs h
  | check k => exact coherent_checkStep hs h
  | snapshot k => exact coherent_snapshotStep hs h
  | push k => exact coherent_pushStep hs h
  | finish k => exact coherent_finishStep hs h

/-- A step leaves what was pushed to a stream, or is the push of a call that has the stream at
the head of its copy. -/
theorem pushed_step {a : Label ι κ} (h : step lib level s a = some t) (i : ι) :
    (t.streams i).pushed = (s.streams i).pushed ∨
      ∃ l rest, a = .push l ∧ s.calls l = .pushing (i :: rest) ∧
        (t.streams i).pushed = (s.streams i).pushed ++ [l] := by
  have hstream : ∀ {j st}, st.pushed = (s.streams j).pushed →
      ((s.setStream j st).streams i).pushed = (s.streams i).pushed := by
    intro j st hst
    by_cases hi : i = j
    · subst hi
      rw [State.setStream_streams_self, hst]
    · rw [State.setStream_streams_of_ne s hi]
  cases a with
  | setLevel l =>
    obtain rfl := Option.some.inj h
    exact Or.inl rfl
  | subscribe j =>
    obtain ⟨-, rfl⟩ := subscribeStep_eq h
    exact Or.inl (hstream rfl)
  | pop j =>
    obtain ⟨-, rfl⟩ := popStep_eq h
    exact Or.inl (hstream rfl)
  | leave j =>
    obtain ⟨-, rfl⟩ := leaveStep_eq h
    exact Or.inl (hstream rfl)
  | unregister j =>
    obtain ⟨-, rfl⟩ := unregisterStep_eq h
    exact Or.inl (hstream rfl)
  | check l =>
    obtain ⟨-, rfl⟩ := checkStep_eq h
    exact Or.inl rfl
  | snapshot l =>
    obtain ⟨-, rfl⟩ := snapshotStep_eq h
    exact Or.inl rfl
  | push l =>
    obtain ⟨j, rest, hpushing, rfl⟩ := pushStep_eq h
    by_cases hi : i = j
    · subst hi
      refine Or.inr ⟨l, rest, rfl, hpushing, ?_⟩
      change ((s.setStream i _).streams i).pushed = _
      rw [State.setStream_streams_self]
    · refine Or.inl ?_
      change ((s.setStream j _).streams i).pushed = _
      rw [State.setStream_streams_of_ne s hi]
  | finish l =>
    obtain ⟨-, rfl⟩ := finishStep_eq h
    exact Or.inl rfl

/-- What a step does to a log call. -/
theorem calls_step {a : Label ι κ} (h : step lib level s a = some t) (k : κ) :
    (t.calls k = s.calls k ∧ a ≠ .push k) ∨
      (a = .check k ∧ s.calls k = .idle ∧ (t.calls k = .returned ∨ t.calls k = .checked)) ∨
      (a = .snapshot k ∧ s.calls k = .checked ∧ t.calls k = .pushing s.live) ∨
      (a = .push k ∧ ∃ j rest, s.calls k = .pushing (j :: rest) ∧ t.calls k = .pushing rest) ∨
      (s.calls k = .pushing [] ∧ t.calls k = .returned) := by
  cases a with
  | setLevel l =>
    obtain rfl := Option.some.inj h
    exact Or.inl ⟨rfl, by simp⟩
  | subscribe j =>
    obtain ⟨-, rfl⟩ := subscribeStep_eq h
    exact Or.inl ⟨rfl, by simp⟩
  | pop j =>
    obtain ⟨-, rfl⟩ := popStep_eq h
    exact Or.inl ⟨rfl, by simp⟩
  | leave j =>
    obtain ⟨-, rfl⟩ := leaveStep_eq h
    exact Or.inl ⟨rfl, by simp⟩
  | unregister j =>
    obtain ⟨-, rfl⟩ := unregisterStep_eq h
    exact Or.inl ⟨rfl, by simp⟩
  | check l =>
    obtain ⟨hidle, rfl⟩ := checkStep_eq h
    by_cases hl : k = l
    · subst hl
      rw [State.setCall_calls_self]
      exact Or.inr (Or.inl ⟨rfl, hidle, check_cases lib level s k⟩)
    · rw [State.setCall_calls_of_ne s hl]
      exact Or.inl ⟨rfl, by simp⟩
  | snapshot l =>
    obtain ⟨hchecked, rfl⟩ := snapshotStep_eq h
    by_cases hl : k = l
    · subst hl
      exact Or.inr (Or.inr (Or.inl ⟨rfl, hchecked, State.setCall_calls_self s k _⟩))
    · exact Or.inl ⟨State.setCall_calls_of_ne s hl _, by simp⟩
  | push l =>
    obtain ⟨j, rest, hpushing, rfl⟩ := pushStep_eq h
    by_cases hl : k = l
    · subst hl
      rw [State.setCall_calls_self]
      exact Or.inr (Or.inr (Or.inr (Or.inl ⟨rfl, j, rest, hpushing, rfl⟩)))
    · rw [State.setCall_calls_of_ne _ hl]
      exact Or.inl ⟨rfl, fun heq => hl (Label.push.inj heq).symm⟩
  | finish l =>
    obtain ⟨hpushing, rfl⟩ := finishStep_eq h
    by_cases hl : k = l
    · subst hl
      rw [State.setCall_calls_self]
      exact Or.inr (Or.inr (Or.inr (Or.inr ⟨hpushing, rfl⟩)))
    · rw [State.setCall_calls_of_ne s hl]
      exact Or.inl ⟨rfl, by simp⟩

/-- The call has reached the streams of its copy, up to the rest it still has. -/
def State.Served (snap : List ι) (k : κ) (s : State ι κ) : Prop :=
  ∃ rest, (s.calls k = .pushing rest ∨ s.calls k = .returned ∧ rest = []) ∧
    ∀ i, i ∈ snap ↔ i ∈ rest ∨ k ∈ (s.streams i).pushed

/-- A step of another call adds no line of this one. -/
theorem mem_pushed_step {a : Label ι κ} (h : step lib level s a = some t) (ha : a ≠ .push k)
    (i : ι) : k ∈ (t.streams i).pushed ↔ k ∈ (s.streams i).pushed := by
  rcases pushed_step h i with heq | ⟨l, rest, rfl, -, heq⟩
  · rw [heq]
  · have hkl : k ≠ l := fun hkl => ha (hkl ▸ rfl)
    simp [heq, hkl]

theorem served_step {a : Label ι κ} {snap : List ι} (hs : s.Served snap k)
    (h : step lib level s a = some t) : t.Served snap k := by
  obtain ⟨rest, hcall, hsnap⟩ := hs
  rcases calls_step h k with ⟨hcalls, ha⟩ | ⟨-, hidle, -⟩ | ⟨-, hchecked, -⟩ |
    ⟨rfl, j, rest', hpushing, hnext⟩ | ⟨hpushing, hnext⟩
  · refine ⟨rest, hcalls ▸ hcall, fun i => ?_⟩
    rw [mem_pushed_step h ha, hsnap]
  · rcases hcall with hcall | ⟨hcall, -⟩ <;> cases hidle.symm.trans hcall
  · rcases hcall with hcall | ⟨hcall, -⟩ <;> cases hchecked.symm.trans hcall
  · rcases hcall with hcall | ⟨hcall, -⟩
    · obtain rfl := PublishPc.pushing.inj (hpushing.symm.trans hcall)
      refine ⟨rest', Or.inl hnext, fun i => ?_⟩
      obtain ⟨j', rest'', hpushing', ht⟩ := pushStep_eq h
      obtain ⟨rfl, rfl⟩ := List.cons.inj (PublishPc.pushing.inj (hpushing.symm.trans hpushing'))
      rw [hsnap, pushed_pushStep k ht, List.mem_cons]
      tauto
    · cases hpushing.symm.trans hcall
  · rcases hcall with hcall | ⟨hcall, -⟩
    · obtain rfl := PublishPc.pushing.inj (hpushing.symm.trans hcall)
      have ha : a ≠ .push k := by
        rintro rfl
        obtain ⟨j, rest, hpushing', -⟩ := pushStep_eq h
        cases hpushing.symm.trans hpushing'
      refine ⟨[], Or.inr ⟨hnext, rfl⟩, fun i => ?_⟩
      rw [mem_pushed_step h ha, hsnap]
    · cases hpushing.symm.trans hcall

theorem pushed_prefix_run {labels : List (Label ι κ)} (i : ι)
    (h : Machine.run (step lib level) s labels = some t) :
    (s.streams i).pushed <+: (t.streams i).pushed := by
  refine Machine.invariant_run (I := fun u => (s.streams i).pushed <+: (u.streams i).pushed) _ ?_
    List.prefix_rfl h
  intro u a v hu hstep
  rcases pushed_step hstep i with heq | ⟨l, rest, -, -, heq⟩
  · exact heq ▸ hu
  · exact hu.trans (heq ▸ List.prefix_append _ _)

/-- A call that has returned does nothing more. -/
theorem returned_run {labels : List (Label ι κ)} (hk : s.calls k = .returned)
    (h : Machine.run (step lib level) s labels = some t) :
    t.calls k = .returned ∧ ∀ i, k ∈ (t.streams i).pushed → k ∈ (s.streams i).pushed := by
  refine Machine.invariant_run (I := fun u => u.calls k = .returned ∧
    ∀ i, k ∈ (u.streams i).pushed → k ∈ (s.streams i).pushed) _ ?_ ⟨hk, fun _ => id⟩ h
  rintro u a v ⟨hu, hback⟩ hstep
  rcases calls_step hstep k with ⟨hcalls, ha⟩ | ⟨-, hidle, -⟩ | ⟨-, hchecked, -⟩ |
    ⟨-, j, rest, hpushing, -⟩ | ⟨hpushing, -⟩
  · refine ⟨hcalls.trans hu, fun i hv => hback i ?_⟩
    rwa [mem_pushed_step hstep ha] at hv
  · cases hidle.symm.trans hu
  · cases hchecked.symm.trans hu
  · cases hpushing.symm.trans hu
  · cases hpushing.symm.trans hu

theorem coherent_run {labels : List (Label ι κ)} (hs : s.Coherent)
    (h : Machine.run (step lib level) s labels = some t) : t.Coherent :=
  Machine.invariant_run (I := State.Coherent) _ (fun _ _ _ hs hstep => coherent_step hs hstep) hs h

/-- A call that has not been checked has not begun. -/
theorem idle_run {labels : List (Label ι κ)} (hk : s.calls k = .idle) (hnot : .check k ∉ labels)
    (h : Machine.run (step lib level) s labels = some t) : t.calls k = .idle := by
  induction labels generalizing s with
  | nil => exact Option.some.inj h ▸ hk
  | cons a labels ih =>
    obtain ⟨u, hu, hrest⟩ := Option.bind_eq_some_iff.mp h
    obtain ⟨ha, hlabels⟩ := not_or.mp (List.mem_cons.not.mp hnot)
    refine ih ?_ hlabels hrest
    rcases calls_step hu k with ⟨hcalls, -⟩ | ⟨rfl, -⟩ | ⟨-, hchecked, -⟩ |
      ⟨-, j, rest, hpushing, -⟩ | ⟨hpushing, -⟩
    · exact hcalls.trans hk
    · exact absurd rfl ha
    · cases hchecked.symm.trans hk
    · cases hpushing.symm.trans hk
    · cases hpushing.symm.trans hk

/-- A call past the threshold is still in front of the list, or it has taken a copy of the list
and is on its way through it. -/
theorem served_run {labels : List (Label ι κ)} (hs : s.Coherent) (hk : s.calls k = .checked)
    (h : Machine.run (step lib level) s labels = some t) :
    t.calls k = .checked ∨ ∃ before after u, labels = before ++ .snapshot k :: after ∧
      Machine.run (step lib level) s before = some u ∧ t.Served u.subscriberBuffers k := by
  induction labels using List.reverseRecOn generalizing t with
  | nil => exact Or.inl (Option.some.inj h ▸ hk)
  | append_singleton labels a ih =>
    obtain ⟨v, hv, hstep⟩ := (Machine.run_concat_some _).mp h
    have hcoherent := coherent_run hs hv
    rcases ih hv with hchecked | ⟨before, after, u, rfl, hu, hserved⟩
    · rcases calls_step hstep k with ⟨hcalls, -⟩ | ⟨-, hidle, -⟩ | ⟨rfl, -, hnext⟩ |
        ⟨-, j, rest, hpushing, -⟩ | ⟨hpushing, -⟩
      · exact Or.inl (hcalls.trans hchecked)
      · cases hidle.symm.trans hchecked
      · refine Or.inr ⟨labels, [], v, rfl, hv, v.live, Or.inl hnext, fun i => ?_⟩
        have hnone := hcoherent.unpublished k (Or.inr hchecked) i
        rw [mem_pushed_step hstep (by simp), hcoherent.live_eq]
        exact ⟨Or.inl, fun hi => hi.resolve_right hnone⟩
      · cases hpushing.symm.trans hchecked
      · cases hpushing.symm.trans hchecked
    · exact Or.inr ⟨before, after ++ [a], u, by simp, hu, served_step hserved hstep⟩

/-- A log line that its call finds below the threshold goes nowhere. One that gets past it goes to
each stream whose buffer was in the list at the moment at which its call took the list, once, and
to no other; lines of calls that follow one another keep their order in every stream; what a
stream hands out and what it still holds is in that order. -/
theorem lines_reach_subscribers {threshold : LogLevel} {labels : List (Label ι κ)}
    (h : Machine.run (step lib level) (initial threshold) labels = some t) :
    (∀ i, (t.streams i).pushed.Nodup ∧
      ((t.streams i).popped ++ (t.streams i).buffer.queue).Sublist (t.streams i).pushed) ∧
    (∀ k, .check k ∉ labels → t.calls k = .idle ∧ ∀ i, k ∉ (t.streams i).pushed) ∧
    (∀ k before after s, labels = before ++ .check k :: after →
      Machine.run (step lib level) (initial threshold) before = some s →
      (lib.value (level k) < lib.value s.threshold →
        t.calls k = .returned ∧ ∀ i, k ∉ (t.streams i).pushed) ∧
      (lib.value s.threshold ≤ lib.value (level k) →
        (t.calls k = .checked ∧ ∀ i, k ∉ (t.streams i).pushed) ∨
          ∃ between rest u, after = between ++ .snapshot k :: rest ∧
            Machine.run (step lib level) (initial threshold) (before ++ .check k :: between) =
              some u ∧
            (∀ i, k ∈ (t.streams i).pushed → (u.streams i).subscribed = true) ∧
            (t.calls k = .returned →
              ∀ i, (u.streams i).subscribed = true → k ∈ (t.streams i).pushed))) ∧
    ∀ before after s, labels = before ++ after →
      Machine.run (step lib level) (initial threshold) before = some s →
      ∀ k l, s.calls k = .returned → s.calls l = .idle →
        ∀ i, k ∈ (t.streams i).pushed → l ∈ (t.streams i).pushed →
          Precedes (t.streams i).pushed k l := by
  have ht := coherent_run (coherent_initial threshold) h
  refine ⟨fun i => ⟨(ht.ordered i).nodup, (ht.ordered i).sublist⟩, fun k hnot => ?_, ?_, ?_⟩
  · have hidle := idle_run rfl hnot h
    exact ⟨hidle, ht.unpublished k (Or.inl hidle)⟩
  · rintro k before after s rfl hs
    obtain ⟨s', hs', hrest⟩ := (Machine.run_append_some _).mp h
    obtain rfl := Option.some.inj (hs.symm.trans hs')
    obtain ⟨v, hv, hafter⟩ := Option.bind_eq_some_iff.mp hrest
    have hcoherent := coherent_step (coherent_run (coherent_initial threshold) hs) hv
    have hrun : Machine.run (step lib level) (initial threshold) (before ++ [.check k]) = some v :=
      (Machine.run_concat_some _).mpr ⟨s, hs, hv⟩
    obtain ⟨hidle, hcall⟩ := checkStep_eq hv
    have hnone := (coherent_run (coherent_initial threshold) hs).unpublished k (Or.inl hidle)
    refine ⟨fun hlt => ?_, fun hle => ?_⟩
    · rw [if_pos hlt] at hcall
      obtain ⟨hreturned, hback⟩ := returned_run (k := k) (by rw [hcall]; simp) hafter
      refine ⟨hreturned, fun i hi => hnone i ?_⟩
      have hpushed := hback i hi
      rwa [hcall] at hpushed
    · rw [if_neg (Int.not_lt.mpr hle)] at hcall
      rcases served_run hcoherent (k := k) (by rw [hcall]; simp) hafter with
        hchecked | ⟨between, rest, u, rfl, hu, left, hleft, hsnap⟩
      · exact Or.inl ⟨hchecked, ht.unpublished k (Or.inr hchecked)⟩
      · have hmem := (coherent_run hcoherent hu).subscribed
        have hreached : Machine.run (step lib level) (initial threshold)
            (before ++ .check k :: between) = some u := by
          rw [List.append_cons, Machine.run_append_some]
          exact ⟨v, hrun, hu⟩
        refine Or.inr ⟨between, rest, u, rfl, hreached, fun i hi => ?_, fun hreturned i hi => ?_⟩
        · exact (hmem i).mp ((hsnap i).mpr (Or.inr hi))
        · rcases hleft with hpushing | ⟨-, rfl⟩
          · cases hreturned.symm.trans hpushing
          · exact ((hsnap i).mp ((hmem i).mpr hi)).resolve_left List.not_mem_nil
  · rintro before after s rfl hs k l hk hl i hki hli
    obtain ⟨u, hu, hrest⟩ := (Machine.run_append_some _).mp h
    obtain rfl := Option.some.inj (hs.symm.trans hu)
    obtain ⟨new, hnew⟩ := pushed_prefix_run i hrest
    have hearlier : k ∈ (s.streams i).pushed := (returned_run hk hrest).2 i hki
    have hlater : l ∉ (s.streams i).pushed :=
      (coherent_run (coherent_initial threshold) hs).unpublished l (Or.inl hl) i
    rw [← hnew] at hli ⊢
    exact precedes_append hearlier ((List.mem_append.mp hli).resolve_left hlater)

end Runs

/-- Two lines and two streams; the second stream comes between the lines, and the first one
leaves while the second line is on its way. -/
def changingStreams : List (Label Bool Bool) :=
  [.subscribe false, .check false, .snapshot false, .push false, .finish false, .subscribe true,
    .check true, .snapshot true, .leave false, .unregister false, .push true, .push true,
    .finish true, .pop true]

/-- The values of the log library's levels. -/
def equalLevels : Library := ⟨fun _ => 0, fun _ => 0, fun _ => .info⟩

theorem lines_reach_subscribers_changingStreams : ∃ t : State Bool Bool,
    Machine.run (step equalLevels fun _ => .info) (initial .info) changingStreams = some t ∧
      (t.streams true).popped = [true] ∧ (t.streams false).pushed = [false, true] ∧
      ∃ u : State Bool Bool,
        (∀ i, true ∈ (t.streams i).pushed → (u.streams i).subscribed = true) ∧
        ∀ i, (u.streams i).subscribed = true → true ∈ (t.streams i).pushed := by
  have ht : Machine.run (step equalLevels fun _ => .info) (initial .info) changingStreams =
    some _ := rfl
  obtain ⟨-, -, hlines, -⟩ := lines_reach_subscribers ht
  obtain ⟨-, hpast⟩ := hlines true [.subscribe false, .check false, .snapshot false, .push false,
    .finish false, .subscribe true] _ _ rfl rfl
  rcases hpast (Int.le_refl _) with ⟨hchecked, -⟩ | ⟨-, -, u, -, -, hto, hfrom⟩
  · cases hchecked
  · exact ⟨_, ht, rfl, rfl, u, hto, hfrom rfl⟩

end LogFanout

end Evrp
