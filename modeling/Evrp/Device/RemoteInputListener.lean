import Evrp.Device.RecordingCapture
import Evrp.Sdk.EventProto

/-!
# The remote listener and the recording calls it makes

A remote listener turns each of its operations into a call at the device, and
answers some of them by itself. One thread records with it; another one may
cancel it. At the device any number of other sessions make calls of their own.
Events cross as messages. A reply can be lost, and what it carried with it.
-/

namespace Evrp

namespace RemoteInputListener

open GrpcInputListenService (Request Pc Handler Delivery deliveries)
open LocalInputListener (Answers Batch)

/-- The operations of the recording thread. -/
inductive Call where
  | startListening (kinds : List DeviceKind)
  | waitForInputEvent (timeoutMs : ℤ)
  | readInputEvents
  | cancelListening
  deriving DecidableEq, Repr

/-- The listener object and the call of the recording thread that is on its way, with the number
it has at the device; all events that reads have returned; whether a reply was lost. -/
structure Client where
  listeningActive : Bool
  calling : Option (Call × ℕ)
  received : List InputEvent
  failed : Bool
  deriving DecidableEq, Repr

structure State where
  service : GrpcInputListenService.State
  client : Client

def initial (now : ℤ) : State :=
  ⟨GrpcInputListenService.initial now, ⟨false, none, [], false⟩⟩

inductive Label where
  /-- Something happens at the device: a call of another session, a step of any call, an arrival,
  the watchdog. -/
  | device (label : GrpcInputListenService.Label)
  /-- The recording thread calls; `status` is the answer of the session check. -/
  | begin (call : Call) (status : GrpcStatus)
  /-- The call does not reach the device. -/
  | unreached (call : Call)
  /-- The reply arrives. -/
  | finish
  /-- The reply does not arrive. -/
  | fail
  /-- Another thread cancels. -/
  | cancel (status : GrpcStatus)

/-- The call that an operation makes, if it does not answer by itself. -/
def request (listeningActive : Bool) : Call → Option Request
  | .startListening kinds =>
    if listeningActive then none
    else if kinds.map DeviceKind.toProto = [] then none
    else some (.startRecording ((kinds.map DeviceKind.toProto).map DeviceKind.fromProto))
  | .waitForInputEvent timeoutMs =>
    if timeoutMs < 0 then none
    else if listeningActive then some (.waitForInputEvent timeoutMs) else none
  | .readInputEvents => if listeningActive then some .readInputEvents else none
  | .cancelListening => if listeningActive then some .stopRecording else none

/-- What an operation does to the object before its call. -/
def Client.enter (c : Client) : Call → Client
  | .cancelListening => { c with listeningActive := false }
  | _ => c

/-- What the reply of a call does: a start that succeeds makes the listener listen, and a read
hands its events on. -/
def Client.reply (c : Client) (response : GrpcInputListenService.Response) : Call → Client
  | .startListening _ =>
    if response.status.code = .ok then { c with listeningActive := true } else c
  | .readInputEvents =>
    if response.status.code = .ok then
      { c with received := c.received ++
          (response.events.map InputEvent.toProto).map InputEvent.fromProto }
    else c
  | _ => c

/-- A call arrives at the device. -/
def post (session : ℕ) (status : GrpcStatus) (s : GrpcInputListenService.State) (r : Request) :
    GrpcInputListenService.State :=
  { s with handlers := s.handlers ++ [⟨session, GrpcInputListenService.entry status r⟩] }

/-- A record has the widths of the kernel's structure. -/
structure KernelRecord (ev : Event) : Prop where
  sec : Word.Fits64 ev.sec
  usec : Word.Fits64 ev.usec
  type : ev.type < 2 ^ 16
  code : ev.code < 2 ^ 16
  value : Word.Fits32 ev.value

instance (ev : Event) : Decidable (KernelRecord ev) :=
  decidable_of_iff (Word.Fits64 ev.sec ∧ Word.Fits64 ev.usec ∧ ev.type < 2 ^ 16 ∧
      ev.code < 2 ^ 16 ∧ Word.Fits32 ev.value)
    ⟨fun h => ⟨h.1, h.2.1, h.2.2.1, h.2.2.2.1, h.2.2.2.2⟩,
      fun h => ⟨h.sec, h.usec, h.type, h.code, h.value⟩⟩

/-- The calls of this session are made by this client, and arrivals are kernel records. -/
def allowed (me : ℕ) : GrpcInputListenService.Label → Bool
  | .request session _ _ => session ≠ me
  | .arrive _ ev => decide (KernelRecord ev)
  | _ => true

def step (me : ℕ) (timeoutMs : ℤ) (s : State) : Label → Option State
  | .device label =>
    if allowed me label then
      (GrpcInputListenService.step timeoutMs s.service label).map fun service =>
        { s with service := service }
    else none
  | .begin call status =>
    if s.client.calling = none then
      match request s.client.listeningActive call with
      | none => some { s with client := s.client.enter call }
      | some r => some {
          service := post me status s.service r
          client := { s.client.enter call with
            calling := some (call, s.service.handlers.length) } }
    else none
  | .unreached call =>
    if s.client.calling = none then some { s with client := s.client.enter call } else none
  | .finish =>
    match s.client.calling with
    | none => none
    | some (call, i) =>
      match s.service.handlers[i]? with
      | some ⟨_, .returned response⟩ =>
        some { s with client := { s.client.reply response call with calling := none } }
      | _ => none
  | .fail =>
    match s.client.calling with
    | none => none
    | some _ => some { s with client := { s.client with calling := none, failed := true } }
  | .cancel status =>
    some {
      service := match request s.client.listeningActive .cancelListening with
        | none => s.service
        | some r => post me status s.service r
      client := s.client.enter .cancelListening }

/-! ## The calls at the device -/

/-- The events that a call is about to return. -/
def carried : Pc → List InputEvent
  | .returned response => response.events
  | .bump next => carried next
  | .store _ next => carried next
  | _ => []

/-- The call can still come to its read. -/
def canRead : Pc → Bool
  | .readConnected | .readCancel | .readCheck | .read => true
  | .bump next => canRead next
  | .store _ next => canRead next
  | _ => false

/-- Events are carried only by a successful reply, and only by the reply. -/
def Tidy : Pc → Prop
  | .returned response => response.status.code = .ok ∨ response.events = []
  | pc => carried pc = []

theorem Tidy.of_carried {pc : Pc} (h : carried pc = []) : Tidy pc := by
  cases pc with
  | returned response => exact Or.inr h
  | _ => exact h

theorem Tidy.carried_eq_nil {pc : Pc} (h : Tidy pc) (hpc : ∀ response, pc ≠ .returned response) :
    carried pc = [] := by
  cases pc with
  | returned response => exact absurd rfl (hpc response)
  | _ => exact h

theorem carried_entry (status : GrpcStatus) (r : Request) :
    carried (GrpcInputListenService.entry status r) = [] := by
  cases r <;> simp only [GrpcInputListenService.entry] <;> split <;> try rfl
  split <;> rfl

/-- Only a read call comes to a read. -/
theorem eq_readInputEvents_of_canRead {status : GrpcStatus} {r : Request}
    (h : canRead (GrpcInputListenService.entry status r) = true) : r = .readInputEvents := by
  cases r with
  | readInputEvents => rfl
  | startRecording kinds =>
    simp only [GrpcInputListenService.entry] at h
    split at h <;> cases h
  | waitForInputEvent timeoutMs =>
    simp only [GrpcInputListenService.entry] at h
    split at h
    · split at h <;> cases h
    · cases h
  | stopRecording =>
    simp only [GrpcInputListenService.entry] at h
    split at h <;> cases h

/-- What one step of a call does: it reads, or it delivers nothing; and it comes no nearer to
another read. -/
structure Moved (s t : GrpcInputListenService.State) (i : ℕ) (h : Handler) (pc : Pc)
    (new : List Delivery) : Prop where
  handlers : t.handlers = s.handlers.set i { h with pc := pc }
  delivered : t.delivered = s.delivered ++ new
  session : ∀ d ∈ new, d.session = h.session
  canRead : canRead pc = true → RemoteInputListener.canRead h.pc = true
  reads : new = [] ∨ RemoteInputListener.canRead h.pc = true
  tidy : Tidy h.pc → Tidy pc ∧ carried pc = new.map Delivery.inputEvent

theorem moved_silently {s t : GrpcInputListenService.State} {i : ℕ} {h : Handler} {pc : Pc}
    (hhandlers : t.handlers = s.handlers.set i { h with pc := pc })
    (hdelivered : t.delivered = s.delivered) (hread : canRead pc = true → canRead h.pc = true)
    (hcarried : Tidy h.pc → carried pc = []) : ∃ pc new, Moved s t i h pc new :=
  ⟨pc, [], hhandlers, hdelivered.trans (List.append_nil _).symm,
    fun _ hd => absurd hd List.not_mem_nil, hread, Or.inl rfl,
    fun htidy => ⟨.of_carried (hcarried htidy), hcarried htidy⟩⟩

theorem moved_of_handlerStep {s t : GrpcInputListenService.State} {i : ℕ} {h : Handler}
    {isCancelled : Bool} {answers : Answers}
    (hstep : GrpcInputListenService.handlerStep s i h isCancelled answers = some t) :
    ∃ pc new, Moved s t i h pc new := by
  obtain ⟨session, pc⟩ := h
  cases pc <;> simp only [GrpcInputListenService.handlerStep, Option.some.injEq, reduceCtorEq]
    at hstep
  case read =>
    subst hstep
    refine ⟨_, _, rfl, rfl, ?_, fun _ => rfl, Or.inr rfl, fun _ => ⟨Or.inl rfl, rfl⟩⟩
    intro d hd
    obtain ⟨b, -, hd⟩ := List.mem_flatMap.mp hd
    obtain ⟨ev, -, rfl⟩ := List.mem_map.mp hd
    rfl
  case bump next =>
    subst hstep
    exact moved_silently rfl rfl id id
  case store time next =>
    subst hstep
    exact moved_silently rfl rfl id id
  all_goals
    first
    | subst hstep
      refine moved_silently rfl rfl ?_ ?_
    | split at hstep
      all_goals
        obtain rfl := Option.some.inj hstep
        refine moved_silently rfl rfl ?_ ?_
  all_goals
    first
    | exact fun _ => rfl
    | split <;> first | exact fun _ => rfl | (intro hread; cases hread)
    | (intro hread; cases hread)

/-! ## What the client has received -/

/-- The events read by the calls of one session. -/
def readBy (me : ℕ) (deliveries : List Delivery) : List InputEvent :=
  (deliveries.filter fun d => d.session = me).map Delivery.inputEvent

theorem readBy_append (me : ℕ) (xs ys : List Delivery) :
    readBy me (xs ++ ys) = readBy me xs ++ readBy me ys := by
  rw [readBy, List.filter_append, List.map_append]
  rfl

theorem readBy_eq_nil {me : ℕ} {deliveries : List Delivery}
    (h : ∀ d ∈ deliveries, d.session ≠ me) : readBy me deliveries = [] := by
  rw [readBy, List.map_eq_nil_iff, List.filter_eq_nil_iff]
  exact fun d hd heq => h d hd (of_decide_eq_true heq)

theorem readBy_eq_map {me : ℕ} {deliveries : List Delivery}
    (h : ∀ d ∈ deliveries, d.session = me) :
    readBy me deliveries = deliveries.map Delivery.inputEvent := by
  rw [readBy, List.filter_eq_self.mpr fun d hd => decide_eq_true (h d hd)]

/-- The events on their way to the client. -/
def State.pending (s : State) : List InputEvent :=
  match s.client.calling with
  | some (.readInputEvents, i) => (s.service.handlers[i]?.map fun h => carried h.pc).getD []
  | _ => []

/-- The calls at the device and the one the client waits for. As long as no reply was lost, the
client waits for every call of its session that can still read. -/
structure Calls (me : ℕ) (s : State) : Prop where
  tidy : ∀ h ∈ s.service.handlers, Tidy h.pc
  calling : ∀ call i, s.client.calling = some (call, i) →
    ∃ h, s.service.handlers[i]? = some h ∧ h.session = me
  readers : s.client.failed = false → ∀ i h, s.service.handlers[i]? = some h → h.session = me →
    canRead h.pc = true → s.client.calling = some (.readInputEvents, i)

/-- What was received and what is on its way was read for this session, in this order; it is all
of it unless a reply was lost. -/
structure Received (me : ℕ) (s : State) : Prop where
  sublist : (s.client.received ++ s.pending).Sublist (readBy me s.service.delivered)
  all : s.client.failed = false →
    s.client.received ++ s.pending = readBy me s.service.delivered

theorem pending_eq_carried {s : State} {i : ℕ} {h : Handler}
    (hcalling : s.client.calling = some (.readInputEvents, i))
    (hi : s.service.handlers[i]? = some h) : s.pending = carried h.pc := by
  simp only [State.pending, hcalling, hi, Option.map_some, Option.getD_some]

theorem pending_eq_nil {s : State} (h : ∀ i, s.client.calling ≠ some (.readInputEvents, i)) :
    s.pending = [] := by
  unfold State.pending
  split
  · rename_i i hi
    exact absurd hi (h i)
  · rfl

/-- What is on its way depends on the call the client waits for alone. -/
theorem pending_frame {s t : State} (hcalling : t.client.calling = s.client.calling)
    (hhandlers : ∀ i, s.client.calling = some (.readInputEvents, i) →
      t.service.handlers[i]? = s.service.handlers[i]?) : t.pending = s.pending := by
  unfold State.pending
  rw [hcalling]
  cases hc : s.client.calling with
  | none => rfl
  | some c =>
    obtain ⟨call, i⟩ := c
    cases call with
    | readInputEvents =>
      simp only
      rw [hhandlers i hc]
    | _ => rfl

section Steps

variable {me : ℕ} {timeoutMs : ℤ} {s t : State}

/-- A call arrives at the device: the client waits for it, or it does not read for its session. -/
structure Arrives (me : ℕ) (s t : State) (session : ℕ) (status : GrpcStatus) (r : Request) :
    Prop where
  handlers : t.service.handlers =
    s.service.handlers ++ [⟨session, GrpcInputListenService.entry status r⟩]
  delivered : t.service.delivered = s.service.delivered
  received : t.client.received = s.client.received
  failed : t.client.failed = s.client.failed
  calling : t.client.calling = s.client.calling ∨ s.client.calling = none ∧ session = me ∧
    ∃ call, t.client.calling = some (call, s.service.handlers.length)
  reads : session = me → r = .readInputEvents →
    t.client.calling = some (.readInputEvents, s.service.handlers.length)

theorem Arrives.getElem?_new {session : ℕ} {status : GrpcStatus} {r : Request}
    (h : Arrives me s t session status r) : t.service.handlers[s.service.handlers.length]? =
      some ⟨session, GrpcInputListenService.entry status r⟩ := by
  rw [h.handlers]
  exact List.getElem?_concat_length

theorem Arrives.getElem?_old {session : ℕ} {status : GrpcStatus} {r : Request}
    (h : Arrives me s t session status r) {i : ℕ} (hi : i < s.service.handlers.length) :
    t.service.handlers[i]? = s.service.handlers[i]? := by
  rw [h.handlers]
  exact List.getElem?_append_left hi

theorem calls_arrives {session : ℕ} {status : GrpcStatus} {r : Request} (hs : Calls me s)
    (h : Arrives me s t session status r) : Calls me t := by
  refine ⟨fun h' hh' => ?_, fun call i hcalling => ?_, fun hfailed i h' hi hme hread => ?_⟩
  · rw [h.handlers] at hh'
    rcases List.mem_append.mp hh' with hh' | hh'
    · exact hs.tidy h' hh'
    · rw [List.mem_singleton.mp hh']
      exact .of_carried (carried_entry status r)
  · rcases h.calling with heq | ⟨-, hme, call', hcall'⟩
    · obtain ⟨h', hi, hme⟩ := hs.calling call i (heq.symm.trans hcalling)
      exact ⟨h', (h.getElem?_old (List.getElem?_eq_some_iff.mp hi).1).trans hi, hme⟩
    · have hi : s.service.handlers.length = i :=
        congrArg Prod.snd (Option.some.inj (hcall'.symm.trans hcalling))
      subst hi
      exact ⟨_, h.getElem?_new, hme⟩
  · rcases Nat.lt_trichotomy i s.service.handlers.length with hlt | rfl | hgt
    · have hwaits := hs.readers (h.failed.symm.trans hfailed) i h'
        ((h.getElem?_old hlt).symm.trans hi) hme hread
      rcases h.calling with heq | ⟨hnone, -⟩
      · exact heq.trans hwaits
      · exact absurd (hnone.symm.trans hwaits) (by simp)
    · obtain rfl := Option.some.inj (h.getElem?_new.symm.trans hi)
      exact h.reads hme (eq_readInputEvents_of_canRead hread)
    · have hlt := (List.getElem?_eq_some_iff.mp hi).1
      rw [h.handlers, List.length_append, List.length_singleton] at hlt
      omega

theorem received_arrives {session : ℕ} {status : GrpcStatus} {r : Request} (hs : Received me s)
    (hcalls : Calls me s) (h : Arrives me s t session status r) : Received me t := by
  have hpending : t.pending = s.pending := by
    rcases h.calling with heq | ⟨hnone, -, call, hcall⟩
    · refine pending_frame heq fun i hi => ?_
      obtain ⟨h', hi', -⟩ := hcalls.calling _ i hi
      exact h.getElem?_old (List.getElem?_eq_some_iff.mp hi').1
    · rw [pending_eq_nil fun i hi => absurd (hnone.symm.trans hi) (by simp)]
      cases call with
      | readInputEvents =>
        exact (pending_eq_carried hcall h.getElem?_new).trans (carried_entry status r)
      | _ => exact pending_eq_nil fun i hi => absurd (hcall.symm.trans hi) (by simp)
  refine ⟨?_, fun hfailed => ?_⟩
  · rw [h.received, hpending, h.delivered]
    exact hs.sublist
  · rw [h.received, hpending, h.delivered]
    exact hs.all (h.failed.symm.trans hfailed)

/-- A step of one call keeps the calls in order. -/
theorem calls_moved {i : ℕ} {h : Handler} {pc : Pc} {new : List Delivery}
    {service : GrpcInputListenService.State} (hs : Calls me s)
    (hi : s.service.handlers[i]? = some h) (hmoved : Moved s.service service i h pc new) :
    Calls me { s with service := service } := by
  have hlt : i < s.service.handlers.length := (List.getElem?_eq_some_iff.mp hi).1
  have hself : service.handlers[i]? = some { h with pc := pc } := by
    rw [hmoved.handlers]
    exact List.getElem?_set_self hlt
  have hother : ∀ j, j ≠ i → service.handlers[j]? = s.service.handlers[j]? := by
    intro j hj
    rw [hmoved.handlers]
    exact List.getElem?_set_ne hj.symm
  refine ⟨fun h' hh' => ?_, fun call j hcalling => ?_, fun hfailed j h' hj hme hread => ?_⟩
  · rw [hmoved.handlers] at hh'
    rcases List.mem_or_eq_of_mem_set hh' with hh' | rfl
    · exact hs.tidy h' hh'
    · exact (hmoved.tidy (hs.tidy h (List.mem_of_getElem? hi))).1
  · obtain ⟨h', hj, hme⟩ := hs.calling call j hcalling
    by_cases hji : j = i
    · subst hji
      exact ⟨_, hself, (Option.some.inj (hi.symm.trans hj)) ▸ hme⟩
    · exact ⟨h', (hother j hji).trans hj, hme⟩
  · by_cases hji : j = i
    · subst hji
      obtain rfl := Option.some.inj (hself.symm.trans hj)
      exact hs.readers hfailed j h hi hme (hmoved.canRead hread)
    · exact hs.readers hfailed j h' ((hother j hji).symm.trans hj) hme hread

/-- What one step of a call reads for this session goes on its way to the client, unless the call
is one whose reply was lost. -/
theorem received_moved {i : ℕ} {h : Handler} {pc : Pc} {new : List Delivery}
    {service : GrpcInputListenService.State} (hs : Received me s) (hcalls : Calls me s)
    (hi : s.service.handlers[i]? = some h) (hrunning : ∀ response, h.pc ≠ .returned response)
    (hmoved : Moved s.service service i h pc new) :
    Received me { s with service := service } := by
  have hlt : i < s.service.handlers.length := (List.getElem?_eq_some_iff.mp hi).1
  have htidy := hcalls.tidy h (List.mem_of_getElem? hi)
  have hnone : carried h.pc = [] := htidy.carried_eq_nil hrunning
  by_cases hcalling : s.client.calling = some (.readInputEvents, i)
  -- The call the client waits for.
  · obtain ⟨h', hi', hme⟩ := hcalls.calling _ i hcalling
    obtain rfl := Option.some.inj (hi.symm.trans hi')
    have hbefore : s.pending = [] := (pending_eq_carried hcalling hi).trans hnone
    have hafter : State.pending { s with service := service } = readBy me new := by
      have hself : service.handlers[i]? = some { h with pc := pc } := by
        rw [hmoved.handlers]
        exact List.getElem?_set_self hlt
      rw [readBy_eq_map fun d hd => (hmoved.session d hd).trans hme]
      exact (pending_eq_carried (s := { s with service := service }) hcalling hself).trans
        (hmoved.tidy htidy).2
    have hsub := hs.sublist
    have hall := hs.all
    rw [hbefore, List.append_nil] at hsub hall
    constructor
    · rw [hafter, hmoved.delivered, readBy_append]
      exact hsub.append (List.Sublist.refl _)
    · intro hfailed
      rw [hafter, hmoved.delivered, readBy_append, ← hall hfailed]
  -- Any other call: what is on its way stays.
  · have hsame : State.pending { s with service := service } = s.pending := by
      refine pending_frame rfl fun j hj => ?_
      have hij : i ≠ j := by
        rintro rfl
        exact hcalling hj
      exact (congrArg (·[j]?) hmoved.handlers).trans (List.getElem?_set_ne hij)
    refine ⟨?_, fun hfailed => ?_⟩
    · rw [hsame, hmoved.delivered, readBy_append]
      exact hs.sublist.trans (List.sublist_append_left _ _)
    · have hnew : readBy me new = [] := by
        rcases hmoved.reads with rfl | hread
        · rfl
        · refine readBy_eq_nil fun d hd hme => hcalling ?_
          exact hcalls.readers hfailed i h hi ((hmoved.session d hd).symm.trans hme) hread
      rw [hsame, hmoved.delivered, readBy_append, hnew, List.append_nil]
      exact hs.all hfailed

/-- Steps that leave the calls and the events alone. -/
theorem calls_frame (hs : Calls me s) (hhandlers : t.service.handlers = s.service.handlers)
    (hcalling : t.client.calling = s.client.calling) (hfailed : t.client.failed = s.client.failed) :
    Calls me t := by
  refine ⟨?_, ?_, ?_⟩
  · rw [hhandlers]
    exact hs.tidy
  · rw [hhandlers, hcalling]
    exact hs.calling
  · rw [hhandlers, hcalling, hfailed]
    exact hs.readers

theorem received_frame (hs : Received me s) (hhandlers : t.service.handlers = s.service.handlers)
    (hdelivered : t.service.delivered = s.service.delivered)
    (hcalling : t.client.calling = s.client.calling)
    (hreceived : t.client.received = s.client.received)
    (hfailed : t.client.failed = s.client.failed) : Received me t := by
  have hpending : t.pending = s.pending := pending_frame hcalling fun i _ => by rw [hhandlers]
  refine ⟨?_, ?_⟩
  · rw [hreceived, hpending, hdelivered]
    exact hs.sublist
  · rw [hreceived, hpending, hdelivered, hfailed]
    exact hs.all

/-- Something happens at the device. -/
theorem received_device {label : GrpcInputListenService.Label}
    {service : GrpcInputListenService.State} (hcalls : Calls me s) (hs : Received me s)
    (hallowed : allowed me label = true)
    (h : GrpcInputListenService.step timeoutMs s.service label = some service) :
    Calls me { s with service := service } ∧ Received me { s with service := service } := by
  cases label with
  | tick ns =>
    obtain rfl := Option.some.inj h
    exact ⟨calls_frame hcalls rfl rfl rfl, received_frame hs rfl rfl rfl rfl rfl⟩
  | arrive fd ev =>
    obtain ⟨f, -, h⟩ := Option.bind_eq_some_iff.mp h
    obtain ⟨listener, -, rfl⟩ := Option.map_eq_some_iff.mp h
    exact ⟨calls_frame hcalls rfl rfl rfl, received_frame hs rfl rfl rfl rfl rfl⟩
  | request session status r =>
    obtain rfl := Option.some.inj h
    have hme : session ≠ me := of_decide_eq_true hallowed
    have harrives : Arrives me s
        { s with service := post session status s.service r } session status r :=
      ⟨rfl, rfl, rfl, rfl, Or.inl rfl, fun heq => absurd heq hme⟩
    exact ⟨calls_arrives hcalls harrives, received_arrives hs hcalls harrives⟩
  | handler i isCancelled answers =>
    obtain ⟨handler, hi, h⟩ := Option.bind_eq_some_iff.mp h
    obtain ⟨pc, new, hmoved⟩ := moved_of_handlerStep h
    exact ⟨calls_moved hcalls hi hmoved,
      received_moved hs hcalls hi (GrpcInputListenService.handlerMove_of_step h).1 hmoved⟩
  | watchdog =>
    obtain rfl := Option.some.inj h
    have hsame : (GrpcInputListenService.watchdogStep timeoutMs s.service).handlers =
          s.service.handlers ∧
        (GrpcInputListenService.watchdogStep timeoutMs s.service).delivered =
          s.service.delivered := by
      unfold GrpcInputListenService.watchdogStep
      split
      · split <;> exact ⟨rfl, rfl⟩
      all_goals exact ⟨rfl, rfl⟩
    exact ⟨calls_frame hcalls hsame.1 rfl rfl, received_frame hs hsame.1 hsame.2 rfl rfl rfl⟩

/-- A record of the kernel fits its message. -/
theorem KernelRecord.sized {ev : Event} (h : KernelRecord ev) (k : DeviceKind) :
    (LocalInputListener.toApiInputEvent k ev).Sized where
  timeSec := h.sec
  timeUsec := h.usec
  type := Nat.lt_trans h.type (by decide)
  code := Nat.lt_trans h.code (by decide)
  value := h.value

/-- The reply hands over what was on its way. -/
theorem received_reply {call : Call} {i session : ℕ} {response : GrpcInputListenService.Response}
    (hcalls : Calls me s) (hcalling : s.client.calling = some (call, i))
    (hi : s.service.handlers[i]? = some ⟨session, .returned response⟩)
    (hsized : ∀ e ∈ s.pending, e.Sized) :
    (s.client.reply response call).received = s.client.received ++ s.pending := by
  cases call with
  | readInputEvents =>
    have hpending : s.pending = response.events := pending_eq_carried hcalling hi
    rw [hpending] at hsized ⊢
    simp only [Client.reply]
    split
    · rw [InputEvent.map_fromProto_toProto hsized]
    · rename_i hnot
      rcases hcalls.tidy _ (List.mem_of_getElem? hi) with hok | hnil
      · exact absurd hok hnot
      · rw [hnil, List.append_nil]
  | startListening kinds =>
    rw [pending_eq_nil fun j hj => absurd (hcalling.symm.trans hj) (by simp), List.append_nil]
    simp only [Client.reply]
    split <;> rfl
  | waitForInputEvent timeoutMs =>
    rw [pending_eq_nil fun j hj => absurd (hcalling.symm.trans hj) (by simp), List.append_nil]
    rfl
  | cancelListening =>
    rw [pending_eq_nil fun j hj => absurd (hcalling.symm.trans hj) (by simp), List.append_nil]
    rfl

theorem failed_reply (c : Client) (response : GrpcInputListenService.Response) (call : Call) :
    (c.reply response call).failed = c.failed := by
  cases call <;> simp only [Client.reply] <;> split <;> rfl

end Steps

/-! ## Runs of the device -/

/-- What a step of the whole does at the device. -/
def serviceLabels (me : ℕ) (s : State) : Label → List GrpcInputListenService.Label
  | .device label => [label]
  | .begin call status =>
    (request s.client.listeningActive call).toList.map (.request me status)
  | .cancel status =>
    (request s.client.listeningActive .cancelListening).toList.map (.request me status)
  | _ => []

theorem run_serviceLabels {me : ℕ} {timeoutMs : ℤ} {s t : State} {a : Label}
    (h : step me timeoutMs s a = some t) :
    Machine.run (GrpcInputListenService.step timeoutMs) s.service (serviceLabels me s a) =
      some t.service := by
  cases a with
  | device label =>
    simp only [step] at h
    split at h
    · obtain ⟨service, hservice, rfl⟩ := Option.map_eq_some_iff.mp h
      simp only [serviceLabels, Machine.run_cons, hservice, Option.bind_some, Machine.run_nil]
    · cases h
  | begin call status =>
    simp only [step] at h
    split at h
    · split at h
      · rename_i hrequest
        obtain rfl := Option.some.inj h
        simp only [serviceLabels, hrequest, Option.toList_none, List.map_nil, Machine.run_nil]
      · rename_i r hrequest
        obtain rfl := Option.some.inj h
        simp only [serviceLabels, hrequest, Option.toList_some, List.map_singleton]
        rfl
    · cases h
  | unreached call =>
    simp only [step] at h
    split at h
    · obtain rfl := Option.some.inj h
      rfl
    · cases h
  | finish =>
    simp only [step] at h
    split at h
    · cases h
    · split at h
      · obtain rfl := Option.some.inj h
        rfl
      · cases h
  | fail =>
    simp only [step] at h
    split at h
    · cases h
    · obtain rfl := Option.some.inj h
      rfl
  | cancel status =>
    obtain rfl := Option.some.inj h
    simp only [serviceLabels]
    cases hrequest : request s.client.listeningActive .cancelListening with
    | none => rfl
    | some r => rfl

/-- What another session reads, this client does not get. -/
def foreignRead : Label → Bool
  | .device (.request _ _ .readInputEvents) => true
  | _ => false

/-- A read call is one of this session. -/
def ReadsFor (me : ℕ) (label : GrpcInputListenService.Label) : Prop :=
  ∀ session status, label = .request session status .readInputEvents → session = me

theorem readsFor_serviceLabels {me : ℕ} {s : State} {a : Label} (ha : foreignRead a = false) :
    ∀ label ∈ serviceLabels me s a, ReadsFor me label := by
  intro label hlabel session status heq
  subst heq
  cases a with
  | device label =>
    obtain rfl := List.mem_singleton.mp hlabel
    cases ha
  | begin call status' =>
    obtain ⟨r, -, hr⟩ := List.mem_map.mp hlabel
    cases hr
    rfl
  | cancel status' =>
    obtain ⟨r, -, hr⟩ := List.mem_map.mp hlabel
    cases hr
    rfl
  | _ => exact absurd hlabel List.not_mem_nil

/-- What arrives in a descriptor while the labels are executed. -/
def Label.arrival (fd : ℕ) : Label → Option Event
  | .device label => label.arrival fd
  | _ => none

def arrivedIn (fd : ℕ) (labels : List Label) : List Event := labels.filterMap (Label.arrival fd)

theorem arrivedIn_serviceLabels (me fd : ℕ) (s : State) (a : Label) :
    GrpcInputListenService.arrivedIn fd (serviceLabels me s a) = (a.arrival fd).toList := by
  cases a with
  | device label =>
    cases h : label.arrival fd <;>
      simp [serviceLabels, GrpcInputListenService.arrivedIn, Label.arrival, h]
  | begin call status =>
    simp only [serviceLabels, Label.arrival]
    cases request s.client.listeningActive call <;> rfl
  | cancel status =>
    simp only [serviceLabels, Label.arrival]
    cases request s.client.listeningActive .cancelListening <;> rfl
  | _ => rfl

/-- A run of the whole is a run of the device with the same arrivals. -/
theorem exists_service_run {me : ℕ} {timeoutMs : ℤ} {s t : State} {labels : List Label}
    (h : Machine.run (step me timeoutMs) s labels = some t) :
    ∃ more, Machine.run (GrpcInputListenService.step timeoutMs) s.service more = some t.service ∧
      (∀ fd, GrpcInputListenService.arrivedIn fd more = arrivedIn fd labels) ∧
      ((∀ a ∈ labels, foreignRead a = false) → ∀ label ∈ more, ReadsFor me label) := by
  induction labels using List.reverseRecOn generalizing t with
  | nil =>
    obtain rfl := Option.some.inj h
    exact ⟨[], rfl, fun _ => rfl, fun _ label hlabel => absurd hlabel List.not_mem_nil⟩
  | append_singleton labels a ih =>
    obtain ⟨u, hu, hstep⟩ := (Machine.run_concat_some _).mp h
    obtain ⟨more, hmore, harrived, hreads⟩ := ih hu
    refine ⟨more ++ serviceLabels me u a, ?_, fun fd => ?_, fun hforeign => ?_⟩
    · exact (Machine.run_append_some _).mpr ⟨_, hmore, run_serviceLabels hstep⟩
    · rw [GrpcInputListenService.arrivedIn, List.filterMap_append, arrivedIn,
        List.filterMap_append]
      exact congrArg₂ (· ++ ·) (harrived fd) ((arrivedIn_serviceLabels me fd u a).trans
        (by cases ha : a.arrival fd <;> simp [ha]))
    · intro label hlabel
      rcases List.mem_append.mp hlabel with hlabel | hlabel
      · exact hreads (fun b hb => hforeign b (List.mem_append_left _ hb)) label hlabel
      · exact readsFor_serviceLabels
          (hforeign a (List.mem_append_right _ (List.mem_singleton_self a))) label hlabel

/-- Only this session reads. -/
structure OnlyReader (me : ℕ) (s : GrpcInputListenService.State) : Prop where
  handlers : ∀ h ∈ s.handlers, canRead h.pc = true → h.session = me
  delivered : ∀ d ∈ s.delivered, d.session = me

theorem onlyReader_step {me : ℕ} {timeoutMs : ℤ} {s t : GrpcInputListenService.State}
    {label : GrpcInputListenService.Label} (hs : OnlyReader me s) (hlabel : ReadsFor me label)
    (h : GrpcInputListenService.step timeoutMs s label = some t) : OnlyReader me t := by
  cases label with
  | tick ns =>
    obtain rfl := Option.some.inj h
    exact ⟨hs.handlers, hs.delivered⟩
  | arrive fd ev =>
    obtain ⟨f, -, h⟩ := Option.bind_eq_some_iff.mp h
    obtain ⟨listener, -, rfl⟩ := Option.map_eq_some_iff.mp h
    exact ⟨hs.handlers, hs.delivered⟩
  | request session status r =>
    obtain rfl := Option.some.inj h
    refine ⟨fun h' hh' hread => ?_, hs.delivered⟩
    rcases List.mem_append.mp hh' with hh' | hh'
    · exact hs.handlers h' hh' hread
    · rw [List.mem_singleton.mp hh'] at hread ⊢
      exact hlabel session status (eq_readInputEvents_of_canRead hread ▸ rfl)
  | handler i isCancelled answers =>
    obtain ⟨handler, hi, h⟩ := Option.bind_eq_some_iff.mp h
    obtain ⟨pc, new, hmoved⟩ := moved_of_handlerStep h
    have hmem := List.mem_of_getElem? hi
    refine ⟨fun h' hh' hread => ?_, fun d hd => ?_⟩
    · rw [hmoved.handlers] at hh'
      rcases List.mem_or_eq_of_mem_set hh' with hh' | rfl
      · exact hs.handlers h' hh' hread
      · exact hs.handlers handler hmem (hmoved.canRead hread)
    · rw [hmoved.delivered] at hd
      rcases List.mem_append.mp hd with hd | hd
      · exact hs.delivered d hd
      · rcases hmoved.reads with rfl | hread
        · exact absurd hd List.not_mem_nil
        · exact (hmoved.session d hd).trans (hs.handlers handler hmem hread)
  | watchdog =>
    obtain rfl := Option.some.inj h
    unfold GrpcInputListenService.watchdogStep
    split
    · split <;> exact ⟨hs.handlers, hs.delivered⟩
    all_goals exact ⟨hs.handlers, hs.delivered⟩

/-! ## The whole -/

structure Tracks (me : ℕ) (s : State) : Prop where
  sound : s.service.Sound
  accounted : s.service.Accounted
  records : ∀ c ∈ s.service.captured, KernelRecord c.2
  calls : Calls me s
  received : Received me s

theorem tracks_initial (me : ℕ) (start : ℤ) : Tracks me (initial start) :=
  ⟨GrpcInputListenService.sound_initial start, GrpcInputListenService.accounted_initial start,
    fun _ hc => absurd hc List.not_mem_nil,
    ⟨fun _ hh => absurd hh List.not_mem_nil, by rintro _ _ ⟨⟩,
      fun _ _ _ hi => absurd (List.mem_of_getElem? hi) List.not_mem_nil⟩,
    ⟨List.Sublist.refl _, fun _ => rfl⟩⟩

section Tracking

variable {me : ℕ} {timeoutMs : ℤ} {s t : State}

theorem Tracks.sized_pending (hs : Tracks me s) : ∀ e ∈ s.pending, e.Sized := by
  intro e he
  have hmem := hs.received.sublist.subset (List.mem_append_right s.client.received he)
  obtain ⟨d, hd, rfl⟩ := List.mem_map.mp hmem
  obtain ⟨-, -, -, hcaptured⟩ := hs.accounted.delivered d (List.mem_of_mem_filter hd)
  exact (hs.records _ hcaptured).sized d.kind

/-- Only kernel records arrive. -/
theorem records_device {service service' : GrpcInputListenService.State}
    {label : GrpcInputListenService.Label} (hs : ∀ c ∈ service.captured, KernelRecord c.2)
    (hallowed : allowed me label = true)
    (h : GrpcInputListenService.step timeoutMs service label = some service') :
    ∀ c ∈ service'.captured, KernelRecord c.2 := by
  cases label with
  | arrive fd ev =>
    obtain ⟨f, -, h⟩ := Option.bind_eq_some_iff.mp h
    obtain ⟨listener, -, rfl⟩ := Option.map_eq_some_iff.mp h
    intro c hc
    rcases List.mem_append.mp hc with hc | hc
    · exact hs c hc
    · rw [List.mem_singleton.mp hc]
      exact of_decide_eq_true hallowed
  | tick ns =>
    obtain rfl := Option.some.inj h
    exact hs
  | request session status r =>
    obtain rfl := Option.some.inj h
    exact hs
  | handler i isCancelled answers =>
    obtain ⟨handler, -, h⟩ := Option.bind_eq_some_iff.mp h
    cases (GrpcInputListenService.handlerMove_of_step h).2 <;> exact hs
  | watchdog =>
    obtain rfl := Option.some.inj h
    unfold GrpcInputListenService.watchdogStep
    split
    · split <;> exact hs
    all_goals exact hs

theorem enter_frame (c : Client) (call : Call) :
    (c.enter call).calling = c.calling ∧ (c.enter call).received = c.received ∧
      (c.enter call).failed = c.failed := by
  cases call <;> exact ⟨rfl, rfl, rfl⟩

theorem request_eq_readInputEvents {listeningActive : Bool} {call : Call}
    (h : request listeningActive call = some .readInputEvents) : call = .readInputEvents := by
  cases call with
  | readInputEvents => rfl
  | startListening kinds =>
    simp only [request] at h
    split at h
    · cases h
    · split at h <;> cases h
  | waitForInputEvent timeoutMs =>
    simp only [request] at h
    split at h
    · cases h
    · split at h <;> cases h
  | cancelListening =>
    simp only [request] at h
    split at h <;> cases h

/-- The recording thread calls. -/
theorem received_begin {call : Call} {status : GrpcStatus} (hs : Tracks me s)
    (h : step me timeoutMs s (.begin call status) = some t) :
    (∀ c ∈ t.service.captured, KernelRecord c.2) ∧ Calls me t ∧ Received me t := by
  obtain ⟨hcalling, hreceived, hfailed⟩ := enter_frame s.client call
  simp only [step] at h
  split at h
  · rename_i hnone
    split at h
    · obtain rfl := Option.some.inj h
      exact ⟨hs.records, calls_frame hs.calls rfl hcalling hfailed,
        received_frame hs.received rfl rfl hcalling hreceived hfailed⟩
    · rename_i r hrequest
      obtain rfl := Option.some.inj h
      have harrives : Arrives me s { service := post me status s.service r
                                     client := { s.client.enter call with
                                       calling := some (call, s.service.handlers.length) } }
          me status r := by
        refine ⟨rfl, rfl, hreceived, hfailed, Or.inr ⟨hnone, rfl, call, rfl⟩, fun _ hr => ?_⟩
        subst hr
        rw [request_eq_readInputEvents hrequest]
      exact ⟨hs.records, calls_arrives hs.calls harrives,
        received_arrives hs.received hs.calls harrives⟩
  · cases h

/-- The reply arrives. -/
theorem received_finish (hs : Tracks me s) (h : step me timeoutMs s .finish = some t) :
    (∀ c ∈ t.service.captured, KernelRecord c.2) ∧ Calls me t ∧ Received me t := by
  simp only [step] at h
  split at h
  · cases h
  · rename_i call i hcalling
    split at h
    · rename_i session response hi
      obtain rfl := Option.some.inj h
      have hreply := received_reply hs.calls hcalling hi hs.sized_pending
      have hfailed := failed_reply s.client response call
      refine ⟨hs.records, ⟨hs.calls.tidy, by rintro _ _ ⟨⟩, ?_⟩, ?_, ?_⟩
      · intro hnot j h' hj hme hread
        have hwaits := hs.calls.readers (hfailed.symm.trans hnot) j h' hj hme hread
        have hij : i = j := congrArg Prod.snd (Option.some.inj (hcalling.symm.trans hwaits))
        subst hij
        obtain rfl := Option.some.inj (hi.symm.trans hj)
        cases hread
      · rw [pending_eq_nil (by rintro j ⟨⟩), List.append_nil]
        exact hreply ▸ hs.received.sublist
      · intro hnot
        rw [pending_eq_nil (by rintro j ⟨⟩), List.append_nil]
        exact hreply.trans (hs.received.all (hfailed.symm.trans hnot))
    · cases h

theorem tracks_step {a : Label} (hs : Tracks me s) (h : step me timeoutMs s a = some t) :
    Tracks me t := by
  have hservice := run_serviceLabels h
  obtain ⟨hsound, haccounted⟩ : t.service.Sound ∧ t.service.Accounted :=
    Machine.invariant_run _ (I := fun u => u.Sound ∧ u.Accounted)
      (fun _ _ _ hu hstep => ⟨GrpcInputListenService.sound_step hu.1 hstep,
        GrpcInputListenService.accounted_step hu.2 hu.1 hstep⟩) ⟨hs.sound, hs.accounted⟩ hservice
  suffices hclient : (∀ c ∈ t.service.captured, KernelRecord c.2) ∧ Calls me t ∧ Received me t from
    ⟨hsound, haccounted, hclient.1, hclient.2.1, hclient.2.2⟩
  cases a with
  | device label =>
    simp only [step] at h
    split at h
    · rename_i hallowed
      obtain ⟨service, hstep, rfl⟩ := Option.map_eq_some_iff.mp h
      exact ⟨records_device hs.records hallowed hstep,
        received_device hs.calls hs.received hallowed hstep⟩
    · cases h
  | begin call status => exact received_begin hs h
  | unreached call =>
    obtain ⟨hcalling, hreceived, hfailed⟩ := enter_frame s.client call
    simp only [step] at h
    split at h
    · obtain rfl := Option.some.inj h
      exact ⟨hs.records, calls_frame hs.calls rfl hcalling hfailed,
        received_frame hs.received rfl rfl hcalling hreceived hfailed⟩
    · cases h
  | finish => exact received_finish hs h
  | fail =>
    simp only [step] at h
    split at h
    · cases h
    · obtain rfl := Option.some.inj h
      refine ⟨hs.records, ⟨hs.calls.tidy, by rintro _ _ ⟨⟩, by rintro ⟨⟩⟩, ?_, by rintro ⟨⟩⟩
      rw [pending_eq_nil (by rintro j ⟨⟩), List.append_nil]
      exact (List.sublist_append_left _ _).trans hs.received.sublist
  | cancel status =>
    obtain rfl := Option.some.inj h
    cases hrequest : request s.client.listeningActive .cancelListening with
    | none =>
      exact ⟨hs.records, calls_frame hs.calls rfl rfl rfl,
        received_frame hs.received rfl rfl rfl rfl rfl⟩
    | some r =>
      have harrives : Arrives me s { service := post me status s.service r
                                     client := s.client.enter .cancelListening } me status r := by
        refine ⟨rfl, rfl, rfl, rfl, Or.inl rfl, fun _ hr => ?_⟩
        subst hr
        cases request_eq_readInputEvents hrequest
      exact ⟨hs.records, calls_arrives hs.calls harrives,
        received_arrives hs.received hs.calls harrives⟩

theorem tracks_run {start : ℤ} {labels : List Label}
    (h : Machine.run (step me timeoutMs) (initial start) labels = some t) : Tracks me t :=
  Machine.invariant_run _ (fun _ _ _ => tracks_step) (tracks_initial me start) h

end Tracking

/-- A lost reply stays lost. -/
theorem failed_step {me : ℕ} {timeoutMs : ℤ} {s t : State} {a : Label}
    (hs : s.client.failed = true) (h : step me timeoutMs s a = some t) :
    t.client.failed = true := by
  cases a with
  | device label =>
    simp only [step] at h
    split at h
    · obtain ⟨service, -, rfl⟩ := Option.map_eq_some_iff.mp h
      exact hs
    · cases h
  | begin call status =>
    simp only [step] at h
    split at h
    · split at h
      · obtain rfl := Option.some.inj h
        exact (enter_frame s.client call).2.2.trans hs
      · obtain rfl := Option.some.inj h
        exact (enter_frame s.client call).2.2.trans hs
    · cases h
  | unreached call =>
    simp only [step] at h
    split at h
    · obtain rfl := Option.some.inj h
      exact (enter_frame s.client call).2.2.trans hs
    · cases h
  | finish =>
    simp only [step] at h
    split at h
    · cases h
    · rename_i call i hcalling
      split at h
      · rename_i session response hi
        obtain rfl := Option.some.inj h
        exact (failed_reply s.client response call).trans hs
      · cases h
  | fail =>
    simp only [step] at h
    split at h
    · cases h
    · obtain rfl := Option.some.inj h
      rfl
  | cancel status =>
    obtain rfl := Option.some.inj h
    exact hs

theorem failed_eq_false_of_run {me : ℕ} {timeoutMs : ℤ} {s t : State} {labels : List Label}
    (h : Machine.run (step me timeoutMs) s labels = some t) (ht : t.client.failed = false) :
    s.client.failed = false := by
  refine Bool.eq_false_iff.mpr fun hs => ?_
  have hlost : t.client.failed = true := Machine.invariant_run _
    (I := fun s => s.client.failed = true) (fun _ _ _ => failed_step) hs h
  exact absurd (ht.symm.trans hlost) Bool.false_ne_true

theorem onlyReader_run {me : ℕ} {timeoutMs start : ℤ} {t : State} {labels : List Label}
    (h : Machine.run (step me timeoutMs) (initial start) labels = some t)
    (hforeign : ∀ a ∈ labels, foreignRead a = false) : OnlyReader me t.service := by
  obtain ⟨more, hmore, -, hreads⟩ := exists_service_run h
  refine Machine.invariant_guarded_run _ (fun _ _ _ => onlyReader_step)
    ⟨fun _ hh => absurd hh List.not_mem_nil, fun _ hd => absurd hd List.not_mem_nil⟩
    ((Machine.guarded_iff_forall_mem _ hmore).mpr (hreads hforeign)) hmore

/-- Only something at the device starts a recording. -/
theorem device_of_starts {me : ℕ} {timeoutMs : ℤ} {s u : State} {a : Label}
    (h : step me timeoutMs s a = some u)
    (hstart : s.service.starts.length < u.service.starts.length) :
    ∃ label, GrpcInputListenService.step timeoutMs s.service label = some u.service := by
  have hrun := run_serviceLabels h
  cases a with
  | device label =>
    obtain ⟨service, hstep, hservice⟩ := Option.bind_eq_some_iff.mp hrun
    exact ⟨label, hstep.trans hservice⟩
  | begin call status =>
    simp only [serviceLabels] at hrun
    cases hrequest : request s.client.listeningActive call with
    | none =>
      rw [hrequest] at hrun
      exact absurd (Option.some.inj hrun ▸ hstart) (Nat.lt_irrefl _)
    | some r =>
      rw [hrequest] at hrun
      exact absurd (Option.some.inj hrun ▸ hstart) (Nat.lt_irrefl _)
  | cancel status =>
    simp only [serviceLabels] at hrun
    cases hrequest : request s.client.listeningActive .cancelListening with
    | none =>
      rw [hrequest] at hrun
      exact absurd (Option.some.inj hrun ▸ hstart) (Nat.lt_irrefl _)
    | some r =>
      rw [hrequest] at hrun
      exact absurd (Option.some.inj hrun ▸ hstart) (Nat.lt_irrefl _)
  | _ => exact absurd (Option.some.inj hrun ▸ hstart) (Nat.lt_irrefl _)

/-- What has come of a recording since its start: the deliveries, read by read, and what of it the
client has. -/
structure Brought (me : ℕ) (u t : State) (after : List Label) (new : List Delivery)
    (batches : List Batch) : Prop where
  delivered : t.service.delivered = u.service.delivered ++ new
  events : new.map Delivery.inputEvent = batches.flatMap Batch.inputEvents
  sources : ∀ b ∈ batches, b.device ∈ t.service.listener.devices
  exact : ∀ d ∈ t.service.listener.devices, ∃ removed queued,
    arrivedIn d.fd after = removed ++ queued ∧
    (t.service.listener.files d.fd).map LocalInputListener.OpenFile.queue = some queued ∧
    LocalInputListener.eventsOf d batches =
      (removed.filter fun ev => ev.type != evSyn).map (LocalInputListener.toApiInputEvent d.kind)
  sublist : (t.client.received ++ t.pending).Sublist (readBy me t.service.delivered)
  received : t.client.failed = false →
    t.client.received ++ t.pending = u.client.received ++ u.pending ++ readBy me new

section Recording

variable {me : ℕ} {timeoutMs start : ℤ} {before after : List Label} {a : Label} {s u t : State}

theorem exists_brought (hs : Machine.run (step me timeoutMs) (initial start) before = some s)
    (hu : step me timeoutMs s a = some u)
    (hstart : s.service.starts.length < u.service.starts.length)
    (ht : Machine.run (step me timeoutMs) u after = some t)
    (hsame : GrpcInputListenService.SameRecording u.service t.service) :
    ∃ new batches, Brought me u t after new batches := by
  obtain ⟨before', hbefore, -⟩ := exists_service_run hs
  obtain ⟨label, hlabel⟩ := device_of_starts hu hstart
  obtain ⟨after', hafter, harrived, -⟩ := exists_service_run ht
  obtain ⟨new, batches, hnew, hevents, hsources, hexact⟩ :=
    GrpcInputListenService.recording_delivered hbefore hlabel hstart hafter hsame
  have hu' : Machine.run (step me timeoutMs) (initial start) (before ++ [a]) = some u :=
    (Machine.run_concat_some _).mpr ⟨s, hs, hu⟩
  have ht' : Machine.run (step me timeoutMs) (initial start) (before ++ [a] ++ after) = some t :=
    (Machine.run_append_some _).mpr ⟨u, hu', ht⟩
  have hreceived := (tracks_run ht').received
  refine ⟨new, batches, hnew, hevents, hsources, fun d hd => ?_, hreceived.sublist,
    fun hfailed => ?_⟩
  · obtain ⟨removed, queued, hsplit, hqueue, hread⟩ := hexact d hd
    exact ⟨removed, queued, (harrived d.fd).symm.trans hsplit, hqueue, hread⟩
  · rw [hreceived.all hfailed, hnew, readBy_append,
      (tracks_run hu').received.all (failed_eq_false_of_run ht hfailed)]

/-- Without other readers the client has all of it. -/
theorem Brought.received_all {new : List Delivery} {batches : List Batch}
    (h : Brought me u t after new batches)
    (hs : Machine.run (step me timeoutMs) (initial start) before = some s)
    (hu : step me timeoutMs s a = some u)
    (ht : Machine.run (step me timeoutMs) u after = some t) (hfailed : t.client.failed = false)
    (hforeign : ∀ b ∈ before ++ a :: after, foreignRead b = false) :
    t.client.received ++ t.pending =
      u.client.received ++ u.pending ++ batches.flatMap Batch.inputEvents := by
  have ht' : Machine.run (step me timeoutMs) (initial start) (before ++ a :: after) = some t :=
    (Machine.run_append_some _).mpr ⟨s, hs, Option.bind_eq_some_iff.mpr ⟨u, hu, ht⟩⟩
  have honly : OnlyReader me t.service := onlyReader_run ht' hforeign
  rw [h.received hfailed, ← h.events, readBy_eq_map fun d hd => ?_]
  exact honly.delivered d (h.delivered ▸ List.mem_append_right _ hd)

/-- From the kernel to the client, in every interleaving with the calls of other sessions: while a
recording lasts, the read calls return, for each of its devices, exactly what is gone from its
queue, in order and without the synchronisation records. What the client has received and what is
on its way to it are in order a part of what its session read; without a lost reply it is all of
it, and all there is if no other session reads. -/
theorem client_receives_recording
    (hs : Machine.run (step me timeoutMs) (initial start) before = some s)
    (hu : step me timeoutMs s a = some u)
    (hstart : s.service.starts.length < u.service.starts.length)
    (ht : Machine.run (step me timeoutMs) u after = some t)
    (hsame : GrpcInputListenService.SameRecording u.service t.service) :
    ∃ new batches, t.service.delivered = u.service.delivered ++ new ∧
      new.map Delivery.inputEvent = batches.flatMap Batch.inputEvents ∧
      (∀ b ∈ batches, b.device ∈ t.service.listener.devices) ∧
      (∀ d ∈ t.service.listener.devices, ∃ removed queued,
        arrivedIn d.fd after = removed ++ queued ∧
        (t.service.listener.files d.fd).map LocalInputListener.OpenFile.queue = some queued ∧
        LocalInputListener.eventsOf d batches =
          (removed.filter fun ev => ev.type != evSyn).map
            (LocalInputListener.toApiInputEvent d.kind)) ∧
      (t.client.received ++ t.pending).Sublist (readBy me t.service.delivered) ∧
      (t.client.failed = false →
        t.client.received ++ t.pending = u.client.received ++ u.pending ++ readBy me new) ∧
      (t.client.failed = false → (∀ b ∈ before ++ a :: after, foreignRead b = false) →
        t.client.received ++ t.pending =
          u.client.received ++ u.pending ++ batches.flatMap Batch.inputEvents) := by
  obtain ⟨new, batches, h⟩ := exists_brought hs hu hstart ht hsame
  exact ⟨new, batches, h.delivered, h.events, h.sources, h.exact, h.sublist, h.received,
    fun hfailed hforeign => h.received_all hs hu ht hfailed hforeign⟩

end Recording

/-- Steps of one call at a device with one keyboard. -/
def steps (i n : ℕ) : List Label :=
  List.replicate n (.device (.handler i false GrpcInputListenService.keyboardNode))

/-- The client's start is about to open the devices. -/
def startingClient : State where
  service := ⟨LocalInputListener.initial, 0, 0, .asleep, [⟨1, .startListen [.keyboard]⟩], [], [],
    [], [], []⟩
  client := ⟨false, some (.startListening [.keyboard], 0), [], false⟩

def startedClient : State where
  service := ⟨(LocalInputListener.startListening GrpcInputListenService.keyboardNode 1 [.keyboard]
      LocalInputListener.initial).1, 0, 0, .asleep, [⟨1, .bump (.returned (.of .ok))⟩], [1], [],
    [0], [], []⟩
  client := ⟨false, some (.startListening [.keyboard], 0), [], false⟩

/-- A key is pressed and read, and released while the reply is on its way; another session asks in
vain to wait. -/
def pressedLabels : List Label :=
  steps 0 2 ++ [.finish, .device (.arrive 7 ⟨0, 0, evKey, keyA, 1⟩),
    .device (.arrive 7 ⟨0, 0, evSyn, 0, 0⟩), .begin (.waitForInputEvent 0) .ok] ++ steps 1 5 ++
    [.finish, .device (.request 2 .ok (.waitForInputEvent (-1))), .begin .readInputEvents .ok] ++
    steps 3 5 ++ [.device (.arrive 7 ⟨0, 9, evKey, keyA, 0⟩)]

theorem client_receives_recording_pressed : ∃ t,
    Machine.run (step 1 0) startedClient pressedLabels = some t ∧ t.client.failed = false ∧
      t.pending = [⟨.keyboard, 0, 0, evKey, keyA, 1⟩] ∧
      ∃ batches : List Batch, t.client.received ++ t.pending = batches.flatMap Batch.inputEvents ∧
        ∀ d ∈ t.service.listener.devices, ∃ removed queued,
          arrivedIn d.fd pressedLabels = removed ++ queued ∧
          LocalInputListener.eventsOf d batches =
            (removed.filter fun ev => ev.type != evSyn).map
              (LocalInputListener.toApiInputEvent d.kind) := by
  obtain ⟨t, ht, hfailed, hpending, hsame⟩ : ∃ t,
      Machine.run (step 1 0) startedClient pressedLabels = some t ∧ t.client.failed = false ∧
        t.pending = [⟨.keyboard, 0, 0, evKey, keyA, 1⟩] ∧
        GrpcInputListenService.SameRecording startedClient.service t.service :=
    ⟨_, rfl, rfl, rfl, rfl, rfl⟩
  obtain ⟨new, batches, -, -, -, hexact, -, -, hall⟩ :=
    @client_receives_recording 1 0 0 (.begin (.startListening [.keyboard]) .ok :: steps 0 2)
      pressedLabels (.device (.handler 0 false GrpcInputListenService.keyboardNode))
      startingClient startedClient t rfl rfl (by decide) ht hsame
  refine ⟨t, ht, hfailed, hpending, batches, hall hfailed (by decide), fun d hd => ?_⟩
  obtain ⟨removed, queued, hsplit, -, hread⟩ := hexact d hd
  exact ⟨removed, queued, hsplit, hread⟩

end RemoteInputListener

end Evrp
