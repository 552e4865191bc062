import Evrp.Device.LocalInputListener
import Evrp.Lib.Machine
import Evrp.Sdk.SessionRegistry

/-!
# The recording calls of a device and their watchdog

Any number of calls of any number of sessions share one listener. Each of its
operations runs on one worker and is one step; between two of them any other
call, the watchdog, the clock and the kernel may move. A call names its session
only to be admitted: which session started the recording is not kept, and the
history that says so here is for the statements alone.
-/

namespace Evrp

namespace GrpcInputListenService

open LocalInputListener (Answers)

inductive Request where
  | startRecording (kinds : List DeviceKind)
  | waitForInputEvent (timeoutMs : ℤ)
  | readInputEvents
  | stopRecording
  deriving DecidableEq, Repr

/-- What a call returns; the two fields of the wait and of the read are empty for the others. -/
structure Response where
  status : GrpcStatus
  ready : Bool
  events : List InputEvent
  deriving DecidableEq, Repr

def Response.of (status : GrpcStatus) : Response := ⟨status, false, []⟩

/-- Where a call stands; `bump` reads the clock and `store` writes the activity time. -/
inductive Pc where
  | startCheck (kinds : List DeviceKind)
  | startCancel (kinds : List DeviceKind)
  | startRecheck (kinds : List DeviceKind)
  | startListen (kinds : List DeviceKind)
  | waitCheck (timeoutMs : ℤ)
  | waitConnected
  | waitOnce
  | waitDeadline (timeoutMs : ℤ)
  | waitLoop (deadline : ℤ)
  | waitLoopConnected (deadline : ℤ)
  | waitClock (deadline : ℤ)
  | waitSlice (deadline : ℤ) (sliceMs : ℤ)
  | waitCancel
  | readConnected
  | readCancel
  | readCheck
  | read
  | stopCheck
  | stopCancel
  | bump (next : Pc)
  | store (time : ℤ) (next : Pc)
  | returned (response : Response)
  deriving DecidableEq, Repr

structure Handler where
  session : ℕ
  pc : Pc
  deriving DecidableEq, Repr

/-- Where the watchdog stands in one turn of its loop. -/
inductive WatchdogPc where
  | asleep
  | load
  | clock (last : ℤ)
  | cancel (reading : ℤ)
  deriving DecidableEq, Repr

/-- One returned event: the session that read it, the recording whose descriptor it was read
from, and the number of the latest recording at that moment. -/
structure Delivery where
  session : ℕ
  recording : ℕ
  latest : ℕ
  kind : DeviceKind
  event : Event
  deriving DecidableEq, Repr

/-- One recording ended by a StopRecording call, and the number of the latest one at that
moment. -/
structure Ending where
  handler : ℕ
  session : ℕ
  recording : ℕ
  latest : ℕ
  deriving DecidableEq, Repr

/-- The service, the clock, the calls so far and their history: the sessions whose StartRecording
succeeded, in order, so that recording `n` belongs to the `n`-th of them; every record captured;
the times at which calls acted on the current recording; every event returned; every recording
stopped. -/
structure State where
  listener : LocalInputListener.State
  now : ℤ
  lastRecordingActivityNs : ℤ
  watchdog : WatchdogPc
  handlers : List Handler
  starts : List ℕ
  captured : List (ℕ × Event)
  effects : List ℤ
  delivered : List Delivery
  ended : List Ending

/-- A service constructed at some time of the steady clock. -/
def initial (now : ℤ) : State :=
  ⟨LocalInputListener.initial, now, now, .asleep, [], [], [], [], [], []⟩

inductive Label where
  | tick (ns : ℕ)
  | arrive (fd : ℕ) (ev : Event)
  | request (session : ℕ) (status : GrpcStatus) (request : Request)
  | handler (i : ℕ) (isCancelled : Bool) (answers : Answers)
  | watchdog

/-- The beginning of a call: the session check and the check of the arguments. -/
def entry (status : GrpcStatus) : Request → Pc
  | .startRecording kinds =>
    if status.code = .ok then .startCheck kinds else .returned (.of status)
  | .waitForInputEvent timeoutMs =>
    if status.code = .ok then
      if timeoutMs < 0 then .returned (.of ⟨.invalidArgument, "timeout_ms must be >= 0"⟩)
      else .waitCheck timeoutMs
    else .returned (.of status)
  | .readInputEvents => if status.code = .ok then .readConnected else .returned (.of status)
  | .stopRecording => if status.code = .ok then .stopCheck else .returned (.of status)

/-- Move one call. -/
def State.goto (s : State) (i : ℕ) (h : Handler) (pc : Pc) : State :=
  { s with handlers := s.handlers.set i { h with pc := pc } }

/-- Stop the listener; there is no current recording after that. -/
def State.cancelListening (s : State) : State :=
  { s with listener := LocalInputListener.cancelListening s.listener, effects := [] }

/-- A call acts on the current recording, if there is one. -/
def State.act (s : State) : State :=
  { s with effects := if s.listener.listeningActive then s.effects ++ [s.now] else s.effects }

/-- What one read returns, event by event: synchronisation records are left out. -/
def deliveries (session latest : ℕ) (batches : List LocalInputListener.Batch) : List Delivery :=
  batches.flatMap fun b => (b.events.filter fun ev => ev.type ≠ evSyn).map fun ev =>
    ⟨session, b.recording, latest, b.device.kind, ev⟩

/-- What one stop ends, if anything is recording. -/
def endings (i : ℕ) (h : Handler) (s : State) : List Ending :=
  s.listener.current.toList.map fun recording => ⟨i, h.session, recording, s.starts.length⟩

/-- The event as the client sees it. -/
def Delivery.inputEvent (d : Delivery) : InputEvent :=
  LocalInputListener.toApiInputEvent d.kind d.event

/-- The slice the worker may spend in one poll while the client is connected. -/
def sliceMs (deadline now : ℤ) : ℤ := min 150 (max 1 ((deadline - now) / 1000000))

/-- The next step of a call. -/
def handlerStep (s : State) (i : ℕ) (h : Handler) (isCancelled : Bool) (answers : Answers) :
    Option State :=
  match h.pc with
  | .startCheck kinds =>
    if s.listener.listeningActive then s.goto i h (.startCancel kinds)
    else s.goto i h (.startRecheck kinds)
  | .startCancel kinds => s.cancelListening.goto i h (.startRecheck kinds)
  | .startRecheck kinds =>
    if s.listener.listeningActive then s.goto i h (.returned (.of ⟨.aborted,
      "could not clear previous recording session; retry StopRecording"⟩))
    else s.goto i h (.startListen kinds)
  | .startListen kinds =>
    let started := LocalInputListener.startListening answers (s.starts.length + 1) kinds s.listener
    if started.2 then
      { s with
        listener := started.1
        starts := s.starts ++ [h.session]
        effects := [s.now] }.goto i h (.bump (.returned (.of .ok)))
    else { s with listener := started.1 }.goto i h (.returned (.of ⟨.failedPrecondition,
      "startListening failed: no evdev opened for requested kinds (see " ++
        "evrp-device log: LocalInputListener lines)"⟩))
  | .waitCheck timeoutMs =>
    if s.listener.listeningActive then s.act.goto i h
      (.bump (if timeoutMs = 0 then .waitConnected else .waitDeadline timeoutMs))
    else s.goto i h (.returned (.of .ok))
  | .waitConnected => s.goto i h (if isCancelled then .waitCancel else .waitOnce)
  | .waitOnce =>
    let waited := LocalInputListener.waitForInputEvent answers 0 s.listener
    { s.act with listener := waited.1 }.goto i h (.returned ⟨.ok, waited.2, []⟩)
  | .waitDeadline timeoutMs => s.goto i h (.waitLoop (s.now + timeoutMs * 1000000))
  | .waitLoop deadline =>
    if s.listener.listeningActive then s.act.goto i h (.bump (.waitLoopConnected deadline))
    else s.goto i h (.returned (.of .ok))
  | .waitLoopConnected deadline =>
    s.goto i h (if isCancelled then .waitCancel else .waitClock deadline)
  | .waitClock deadline =>
    if deadline ≤ s.now then s.goto i h (.returned (.of .ok))
    else s.goto i h (.waitSlice deadline (sliceMs deadline s.now))
  | .waitSlice deadline slice =>
    let waited := LocalInputListener.waitForInputEvent answers slice s.listener
    { s.act with listener := waited.1 }.goto i h
      (if waited.2 then .returned ⟨.ok, true, []⟩ else .waitLoop deadline)
  | .waitCancel => s.cancelListening.goto i h (.returned (.of .ok))
  | .readConnected => s.goto i h (if isCancelled then .readCancel else .readCheck)
  | .readCancel => s.cancelListening.goto i h .readCheck
  | .readCheck =>
    if s.listener.listeningActive then s.act.goto i h (.bump .read) else s.goto i h .read
  | .read =>
    let read := LocalInputListener.readInputEvents answers s.listener
    let new := deliveries h.session s.starts.length read.2
    { s.act with listener := read.1, delivered := s.delivered ++ new }.goto i h
      (.returned ⟨.ok, false, new.map Delivery.inputEvent⟩)
  | .stopCheck =>
    s.goto i h (if s.listener.listeningActive then .stopCancel else .returned (.of .ok))
  | .stopCancel =>
    { s.cancelListening with ended := s.ended ++ endings i h s }.goto i h (.returned (.of .ok))
  | .bump next => s.goto i h (.store s.now next)
  | .store time next => { s with lastRecordingActivityNs := time }.goto i h next
  | .returned _ => none

/-- The next step of the watchdog, for an idle timeout in milliseconds. -/
def watchdogStep (timeoutMs : ℤ) (s : State) : State :=
  match s.watchdog with
  | .asleep =>
    if timeoutMs ≤ 0 ∨ s.listener.listeningActive = false then s else { s with watchdog := .load }
  | .load => { s with watchdog := .clock s.lastRecordingActivityNs }
  | .clock last =>
    { s with watchdog := if timeoutMs * 1000000 < s.now - last then .cancel s.now else .asleep }
  | .cancel _ => { s.cancelListening with watchdog := .asleep }

def step (timeoutMs : ℤ) (s : State) : Label → Option State
  | .tick ns => some { s with now := s.now + ns }
  | .arrive fd ev => (s.listener.files fd).bind fun f =>
    (LocalInputListener.arrive fd ev s.listener).map fun listener =>
      { s with listener := listener, captured := s.captured ++ [(f.recording, ev)] }
  | .request session status request =>
    some { s with handlers := s.handlers ++ [⟨session, entry status request⟩] }
  | .handler i isCancelled answers =>
    s.handlers[i]?.bind fun h => handlerStep s i h isCancelled answers
  | .watchdog => some (watchdogStep timeoutMs s)

/-! ## What a step of a call can do -/

/-- The steps by which a call acts on a recording: a successful start, an answer that the listener
listens, a wait and a read while it does. -/
def acts (s : State) (h : Handler) (answers : Answers) : Bool :=
  match h.pc with
  | .startListen kinds =>
    (LocalInputListener.startListening answers (s.starts.length + 1) kinds s.listener).2
  | .waitCheck _ | .waitOnce | .waitLoop _ | .waitSlice _ _ | .readCheck | .read =>
    s.listener.listeningActive
  | _ => false

/-- A move of call `i`, whatever point of the code it comes from. -/
inductive HandlerMove (s : State) (i : ℕ) (h : Handler) (answers : Answers) : State → Prop
  | move (pc : Pc) (hacts : acts s h answers = false) : HandlerMove s i h answers (s.goto i h pc)
  | store (time : ℤ) (pc : Pc) (hacts : acts s h answers = false) :
    HandlerMove s i h answers ({ s with lastRecordingActivityNs := time }.goto i h pc)
  | act (pc : Pc) (hacts : acts s h answers = s.listener.listeningActive) :
    HandlerMove s i h answers (s.act.goto i h pc)
  | cancel (pc : Pc) (hacts : acts s h answers = false) :
    HandlerMove s i h answers (s.cancelListening.goto i h pc)
  | started (kinds : List DeviceKind) (pc : Pc) (hacts : acts s h answers = true)
    (hstart : (LocalInputListener.startListening answers (s.starts.length + 1) kinds
      s.listener).2 = true) :
    HandlerMove s i h answers ({ s with
      listener := (LocalInputListener.startListening answers (s.starts.length + 1) kinds
        s.listener).1
      starts := s.starts ++ [h.session]
      effects := [s.now] }.goto i h pc)
  | refused (kinds : List DeviceKind) (pc : Pc) (hacts : acts s h answers = false)
    (hstart : (LocalInputListener.startListening answers (s.starts.length + 1) kinds
      s.listener).2 = false) :
    HandlerMove s i h answers ({ s with
      listener := (LocalInputListener.startListening answers (s.starts.length + 1) kinds
        s.listener).1 }.goto i h pc)
  | wait (timeoutMs : ℤ) (pc : Pc) (hacts : acts s h answers = s.listener.listeningActive) :
    HandlerMove s i h answers ({ s.act with
      listener := (LocalInputListener.waitForInputEvent answers timeoutMs s.listener).1 }.goto
        i h pc)
  | read (response : Response) (hacts : acts s h answers = s.listener.listeningActive) :
    HandlerMove s i h answers ({ s.act with
      listener := (LocalInputListener.readInputEvents answers s.listener).1
      delivered := s.delivered ++ deliveries h.session s.starts.length
        (LocalInputListener.readInputEvents answers s.listener).2 }.goto i h (.returned response))
  | stop (response : Response) (hacts : acts s h answers = false) :
    HandlerMove s i h answers ({ s.cancelListening with
      ended := s.ended ++ endings i h s }.goto i h (.returned response))

/-- Every step of a call is one of these moves, of a call that has not returned. -/
theorem handlerMove_of_step {s t : State} {i : ℕ} {h : Handler} {isCancelled : Bool}
    {answers : Answers} (hstep : handlerStep s i h isCancelled answers = some t) :
    (∀ response, h.pc ≠ .returned response) ∧ HandlerMove s i h answers t := by
  obtain ⟨session, pc⟩ := h
  cases pc <;> simp only [handlerStep, Option.some.injEq, reduceCtorEq] at hstep <;>
    refine ⟨fun _ => Pc.noConfusion, ?_⟩
  case startCheck kinds =>
    split at hstep
    all_goals
      obtain rfl := Option.some.inj hstep
      exact .move _ rfl
  case startRecheck kinds =>
    split at hstep
    all_goals
      obtain rfl := Option.some.inj hstep
      exact .move _ rfl
  case startListen kinds =>
    split at hstep
    · rename_i hstart
      obtain rfl := Option.some.inj hstep
      exact .started kinds _ hstart hstart
    · rename_i hstart
      obtain rfl := Option.some.inj hstep
      exact .refused kinds _ (Bool.eq_false_iff.mpr hstart) (Bool.eq_false_iff.mpr hstart)
  case waitCheck timeoutMs =>
    split at hstep
    · obtain rfl := Option.some.inj hstep
      exact .act _ rfl
    · rename_i hlisten
      obtain rfl := Option.some.inj hstep
      exact .move _ (Bool.eq_false_iff.mpr hlisten)
  case waitLoop deadline =>
    split at hstep
    · obtain rfl := Option.some.inj hstep
      exact .act _ rfl
    · rename_i hlisten
      obtain rfl := Option.some.inj hstep
      exact .move _ (Bool.eq_false_iff.mpr hlisten)
  case readCheck =>
    split at hstep
    · obtain rfl := Option.some.inj hstep
      exact .act _ rfl
    · rename_i hlisten
      obtain rfl := Option.some.inj hstep
      exact .move _ (Bool.eq_false_iff.mpr hlisten)
  case waitClock deadline =>
    split at hstep
    all_goals
      obtain rfl := Option.some.inj hstep
      exact .move _ rfl
  all_goals subst hstep
  case startCancel => exact .cancel _ rfl
  case waitCancel => exact .cancel _ rfl
  case readCancel => exact .cancel _ rfl
  case waitOnce => exact .wait 0 _ rfl
  case waitSlice deadline slice => exact .wait slice _ rfl
  case read => exact .read _ rfl
  case stopCancel => exact .stop _ rfl
  case store time next => exact .store time _ rfl
  all_goals exact .move _ rfl

/-! ## What holds in every run -/

/-- The listener's devices are open for the latest recording, what they hold is on record, and
calls act only on a recording that is running, and not in the future. -/
structure State.Sound (s : State) : Prop where
  owned : s.listener.Owned s.starts.length
  captured : LocalInputListener.FilesCaptured s.captured s.listener.files
  active : s.effects ≠ [] → s.listener.listeningActive = true
  past : ∀ τ ∈ s.effects, τ ≤ s.now

theorem sound_initial (now : ℤ) : (initial now).Sound :=
  ⟨LocalInputListener.owned_initial _, nofun, fun h => absurd rfl h, nofun⟩

theorem State.mem_effects_act {s : State} {τ : ℤ} :
    τ ∈ s.act.effects ↔ τ ∈ s.effects ∨ (τ = s.now ∧ s.listener.listeningActive = true) := by
  rw [State.act]
  cases s.listener.listeningActive with
  | false => simp
  | true => simp

/-- Acting keeps the invariant of the effects, with any listener that listens as before. -/
private theorem sound_act {s : State} (hs : s.Sound) :
    (s.act.effects ≠ [] → s.listener.listeningActive = true) ∧ ∀ τ ∈ s.act.effects, τ ≤ s.now := by
  constructor
  · intro hne
    obtain ⟨τ, hτ⟩ := List.exists_mem_of_ne_nil _ hne
    rcases State.mem_effects_act.mp hτ with hτ | ⟨-, hlisten⟩
    · exact hs.active (List.ne_nil_of_mem hτ)
    · exact hlisten
  · intro τ hτ
    rcases State.mem_effects_act.mp hτ with hτ | ⟨rfl, -⟩
    · exact hs.past τ hτ
    · exact le_refl _

theorem sound_cancelListening {s : State} (hs : s.Sound) : s.cancelListening.Sound := by
  obtain ⟨howned, -, hfiles⟩ := LocalInputListener.cancelListening_spec hs.owned hs.captured
  exact ⟨howned, hfiles, fun h => absurd rfl h, nofun⟩

theorem sound_handlerMove {s t : State} {i : ℕ} {h : Handler} {answers : Answers} (hs : s.Sound)
    (hmove : HandlerMove s i h answers t) : t.Sound := by
  cases hmove with
  | move pc => exact ⟨hs.owned, hs.captured, hs.active, hs.past⟩
  | store time pc => exact ⟨hs.owned, hs.captured, hs.active, hs.past⟩
  | act pc => exact ⟨hs.owned, hs.captured, (sound_act hs).1, (sound_act hs).2⟩
  | cancel pc =>
    have hc := sound_cancelListening hs
    exact ⟨hc.owned, hc.captured, hc.active, hc.past⟩
  | stop response =>
    have hc := sound_cancelListening hs
    exact ⟨hc.owned, hc.captured, hc.active, hc.past⟩
  | started kinds pc _ hstart =>
    obtain ⟨hok, -, hfiles⟩ := LocalInputListener.startListening_spec answers
      (s.starts.length + 1) kinds hs.owned hs.captured
    obtain ⟨howned, hlisten⟩ := hok hstart
    refine ⟨?_, hfiles, fun _ => hlisten, fun τ hτ => ?_⟩
    · have hlength : (s.starts ++ [h.session]).length = s.starts.length + 1 := by
        rw [List.length_append, List.length_singleton]
      simp only [State.goto, hlength]
      exact howned
    · rw [List.mem_singleton.mp hτ]
      exact le_refl _
  | refused kinds pc _ hstart =>
    obtain ⟨-, hfail, hfiles⟩ := LocalInputListener.startListening_spec answers
      (s.starts.length + 1) kinds hs.owned hs.captured
    obtain ⟨howned, hlisten⟩ := hfail hstart
    exact ⟨howned, hfiles, fun hne => hlisten.trans (hs.active hne), hs.past⟩
  | wait timeoutMs pc =>
    obtain ⟨howned, hlisten, hfiles⟩ := LocalInputListener.waitForInputEvent_spec answers timeoutMs
      hs.owned hs.captured
    exact ⟨howned, hfiles, fun hne => hlisten.trans ((sound_act hs).1 hne), (sound_act hs).2⟩
  | read response =>
    obtain ⟨howned, hlisten, hfiles, -⟩ := LocalInputListener.readInputEvents_spec answers
      hs.owned hs.captured
    exact ⟨howned, hfiles, fun hne => hlisten.trans ((sound_act hs).1 hne), (sound_act hs).2⟩

theorem sound_step {timeoutMs : ℤ} {s t : State} {a : Label} (hs : s.Sound)
    (h : step timeoutMs s a = some t) : t.Sound := by
  cases a with
  | tick ns =>
    obtain rfl := Option.some.inj h
    refine ⟨hs.owned, hs.captured, hs.active, fun τ hτ => ?_⟩
    have := hs.past τ hτ
    simp only
    omega
  | arrive fd ev =>
    obtain ⟨f, hf, h⟩ := Option.bind_eq_some_iff.mp h
    obtain ⟨listener, hlistener, rfl⟩ := Option.map_eq_some_iff.mp h
    obtain ⟨g, hg, howned, hlisten, hfiles⟩ := LocalInputListener.arrive_spec hs.owned hs.captured
      hlistener
    rw [hf] at hg
    obtain rfl := Option.some.inj hg
    exact ⟨howned, hfiles, fun hne => hlisten.trans (hs.active hne), hs.past⟩
  | request session status request =>
    obtain rfl := Option.some.inj h
    exact ⟨hs.owned, hs.captured, hs.active, hs.past⟩
  | handler i isCancelled answers =>
    obtain ⟨handler, -, h⟩ := Option.bind_eq_some_iff.mp h
    exact sound_handlerMove hs (handlerMove_of_step h).2
  | watchdog =>
    obtain rfl := Option.some.inj h
    cases hpc : s.watchdog <;> simp only [watchdogStep, hpc]
    case asleep =>
      split
      · exact hs
      · exact ⟨hs.owned, hs.captured, hs.active, hs.past⟩
    case cancel reading =>
      have hc := sound_cancelListening hs
      exact ⟨hc.owned, hc.captured, hc.active, hc.past⟩
    all_goals exact ⟨hs.owned, hs.captured, hs.active, hs.past⟩

/-- One keyboard node with descriptor 7 that is always readable. -/
def keyboardNode : Answers :=
  ⟨fun _ => ["/dev/input/event0"], fun _ => some 7, fun _ => true, fun _ => 64⟩

/-- A call of a session, and a number of its steps without anything in between. -/
def callLabels (session : ℕ) (request : Request) (i steps : ℕ) : List Label :=
  .request session .ok request :: List.replicate steps (.handler i false keyboardNode)

end GrpcInputListenService

end Evrp
