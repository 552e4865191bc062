import Evrp.Device.PlaybackPrefix
import Evrp.Sdk.BusinessCalls
import Evrp.Sdk.EventProto

/-!
# Uploads and playbacks of several clients

The device has one playback object for all its clients. An upload replaces the
cached recording, and a playback plays what is cached when the worker gets to
it, whoever has uploaded it. Both are posted, so a playback never meets half of
an upload, and what it writes to the device files is one piece.
-/

namespace Evrp

namespace PlaybackService

open LocalPlayback Sequential

/-- An Upload call with its message, or a Playback call with what the devices do while it runs
and when a stop becomes visible to it. -/
inductive Call where
  | upload (events : List ProtoInputEvent)
  | playback (env : Devices) (stopRequested : ℕ → Bool)

/-- What the posted call returns: the result and its reference parameter. -/
structure Answer where
  ok : Bool
  result : StatusCode
  deriving DecidableEq, Repr

/-- A call that is refused behind a shutdown returns `false` and leaves the status as it was
constructed. -/
instance : Inhabited Answer := ⟨⟨false, ⟨0, ""⟩⟩⟩

/-- The playback object and all that its playbacks have written to the device files. -/
structure Device where
  player : Player
  written : List RawWrite

/-- A device on which nothing has been uploaded. -/
def Device.new : Device := ⟨⟨[], false, -1⟩, []⟩

def Device.upload (events : List InputEvent) (d : Device) : Answer × Device :=
  (⟨true, ⟨0, ""⟩⟩, { d with player := { d.player with cached := events, playing := false } })

def Device.playback (env : Devices) (stopRequested : ℕ → Bool) (d : Device) : Answer × Device :=
  let played := d.player.playback env stopRequested
  (⟨played.ok, played.status⟩, ⟨played.player, d.written ++ played.loop.writer.written⟩)

/-- What the worker does for a call. -/
def Call.perform : Call → Device → Answer × Device
  | .upload events => Device.upload (events.map InputEvent.fromProto)
  | .playback env stopRequested => Device.playback env stopRequested

/-- The status with which a client sees a call end, or the response. -/
inductive Rpc where
  | failed (status : StatusCode)
  | response (result : StatusCode)
  deriving DecidableEq, Repr

/-- The numbers of the status codes that the handlers use. -/
abbrev failedPrecondition : ℤ := 9
abbrev internal : ℤ := 13

/-- The end of the Upload handler. -/
def uploadReply (a : Answer) : Rpc :=
  if a.ok then .response a.result
  else .failed ⟨internal, if a.result.message.isEmpty then "upload failed" else a.result.message⟩

/-- The end of the Playback handler. -/
def playbackReply (a : Answer) : Rpc :=
  if a.ok then .response a.result
  else
    .failed ⟨failedPrecondition,
      if a.result.message.isEmpty then "playback failed" else a.result.message⟩

/-- The events that a call uploads. -/
def Call.uploaded : Call → Option (List InputEvent)
  | .upload events => some (events.map InputEvent.fromProto)
  | .playback _ _ => none

section Order

variable {ι : Type*} (call : ι → Call)

/-- The events of the latest upload in an order of calls; none before the first one. -/
def latest (order : List ι) : List InputEvent :=
  ((order.filterMap fun i => (call i).uploaded).getLast?).getD []

variable [DecidableEq ι]

/-- What a call writes at its place in an order. -/
def block (order : List ι) (i : ι) : List RawWrite :=
  match call i with
  | .upload _ => []
  | .playback env stopRequested =>
    (LocalPlayback.playback env stopRequested
      (latest call (order.takeWhile (· ≠ i)))).2.writer.written

omit [DecidableEq ι] in
theorem latest_concat_upload {order : List ι} {i : ι} {events : List InputEvent}
    (h : (call i).uploaded = some events) : latest call (order ++ [i]) = events := by
  simp [latest, h]

omit [DecidableEq ι] in
theorem latest_append_of_none {order later : List ι}
    (h : ∀ i ∈ later, (call i).uploaded = none) :
    latest call (order ++ later) = latest call order := by
  rw [latest, List.filterMap_append, List.filterMap_eq_nil_iff.mpr h, List.append_nil, latest]

/-- Later calls do not change what a call has written. -/
theorem block_append {order : List ι} {i : ι} (hi : i ∈ order) (later : List ι) :
    block call (order ++ later) i = block call order i := by
  have htake : (order ++ later).takeWhile (· ≠ i) = order.takeWhile (· ≠ i) := by
    obtain ⟨xs, ys, rfl⟩ := List.append_of_mem hi
    simp [List.takeWhile_append]
  rw [block, block, htake]

/-- A call stands behind exactly the calls before it. -/
theorem takeWhile_of_nodup {before rest : List ι} {i : ι} (h : (before ++ i :: rest).Nodup) :
    (before ++ i :: rest).takeWhile (· ≠ i) = before := by
  have hne : ∀ j ∈ before, decide (j ≠ i) = true := by
    intro j hj
    have hdisjoint := (List.nodup_append.mp h).2.2 j hj i (List.mem_cons_self ..)
    exact decide_eq_true hdisjoint
  rw [List.takeWhile_append_of_pos hne]
  simp

/-- The calls among the handlers. -/
def tasks (handlers : List (SyncDispatchQueue.Handler ι)) : List ι :=
  handlers.filterMap fun h =>
    match h with
    | .task i => some i
    | .shutdown => none

omit [DecidableEq ι] in
theorem mem_tasks {handlers : List (SyncDispatchQueue.Handler ι)} {i : ι} :
    i ∈ tasks handlers ↔ .task i ∈ handlers := by
  simp only [tasks, List.mem_filterMap]
  constructor
  · rintro ⟨h, hh, hi⟩
    cases h with
    | task j =>
      obtain rfl := Option.some.inj hi
      exact hh
    | shutdown => cases hi
  · exact fun hi => ⟨_, hi, rfl⟩

omit [DecidableEq ι] in
theorem nodup_tasks {handlers : List (SyncDispatchQueue.Handler ι)} (h : handlers.Nodup) :
    (tasks handlers).Nodup := by
  refine h.filterMap fun a b i ha hb => ?_
  cases a with
  | shutdown => cases ha
  | task j =>
    cases b with
    | shutdown => cases hb
    | task k =>
      obtain rfl := Option.some.inj ha
      obtain rfl := Option.some.inj hb
      rfl

omit [DecidableEq ι] in
theorem precedes_tasks {handlers : List (SyncDispatchQueue.Handler ι)} {i j : ι}
    (h : Precedes handlers (.task i) (.task j)) : Precedes (tasks handlers) i j := by
  obtain ⟨xs, ys, zs, rfl⟩ := h
  exact ⟨tasks xs, tasks ys, tasks zs, by simp [tasks]⟩

/-- The device after handlers in order. -/
def served (handlers : List (SyncDispatchQueue.Handler ι)) : Device :=
  after (SyncDispatchQueue.Handler.effect (fun i => (call i).perform) none) .new handlers

omit [DecidableEq ι] in
theorem served_task (handlers : List (SyncDispatchQueue.Handler ι)) (i : ι) :
    served call (handlers ++ [.task i]) = ((call i).perform (served call handlers)).2 := by
  rw [served, after_concat]
  rfl

omit [DecidableEq ι] in
theorem served_shutdown (handlers : List (SyncDispatchQueue.Handler ι)) :
    served call (handlers ++ [.shutdown]) = served call handlers := by
  rw [served, after_concat]
  rfl

omit [DecidableEq ι] in
theorem tasks_concat (handlers : List (SyncDispatchQueue.Handler ι)) (i : ι) :
    tasks (handlers ++ [.task i]) = tasks handlers ++ [i] := by
  simp [tasks]

omit [DecidableEq ι] in
theorem tasks_concat_shutdown (handlers : List (SyncDispatchQueue.Handler ι)) :
    tasks (handlers ++ [.shutdown]) = tasks handlers := by
  simp [tasks]

/-- A playback leaves the cached recording. -/
theorem Device.playback_cached (env : Devices) (stopRequested : ℕ → Bool) (d : Device) :
    (d.playback env stopRequested).2.player.cached = d.player.cached := by
  obtain ⟨-, -, -, hcached⟩ := d.player.playback_outcome env stopRequested
  exact hcached

/-- A playback writes what its loop over the cached recording writes. -/
theorem Device.playback_written (env : Devices) (stopRequested : ℕ → Bool) (d : Device) :
    (d.playback env stopRequested).2.written =
      d.written ++ (LocalPlayback.playback env stopRequested d.player.cached).2.writer.written := by
  obtain ⟨-, -, hloop, -⟩ := d.player.playback_outcome env stopRequested
  rw [Device.playback, hloop]

/-- A playback answers with the result of its loop. -/
theorem Device.playback_answer (env : Devices) (stopRequested : ℕ → Bool) (d : Device) :
    (d.playback env stopRequested).1 =
      ⟨(LocalPlayback.playback env stopRequested d.player.cached).1.code = 0,
        (LocalPlayback.playback env stopRequested d.player.cached).1⟩ := by
  obtain ⟨hok, hstatus, -, -⟩ := d.player.playback_outcome env stopRequested
  rw [Device.playback, hok, hstatus]

omit [DecidableEq ι] in
/-- The latest upload is what is cached. -/
theorem served_cached (handlers : List (SyncDispatchQueue.Handler ι)) :
    (served call handlers).player.cached = latest call (tasks handlers) := by
  induction handlers using List.reverseRecOn with
  | nil => rfl
  | append_singleton handlers h ih =>
    cases h with
    | shutdown => rw [served_shutdown, tasks_concat_shutdown, ih]
    | task i =>
      rw [served_task, tasks_concat]
      cases hcall : call i with
      | upload events =>
        exact (latest_concat_upload call (by rw [hcall]; rfl)).symm
      | playback env stopRequested =>
        rw [latest_append_of_none call (by simp [hcall, Call.uploaded]), ← ih]
        exact Device.playback_cached env stopRequested _

/-- What is written is the blocks of the calls in order. -/
theorem served_written {handlers : List (SyncDispatchQueue.Handler ι)} (hnodup : handlers.Nodup) :
    (served call handlers).written = (tasks handlers).flatMap (block call (tasks handlers)) := by
  induction handlers using List.reverseRecOn with
  | nil => rfl
  | append_singleton handlers h ih =>
    have hbegins := ih (hnodup.sublist (List.sublist_append_left _ _))
    cases h with
    | shutdown => rw [served_shutdown, tasks_concat_shutdown, hbegins]
    | task i =>
      have hearlier : (tasks handlers).flatMap (block call (tasks handlers ++ [i])) =
          (tasks handlers).flatMap (block call (tasks handlers)) :=
        List.flatMap_congr fun j hj => block_append call hj [i]
      have hplace : (tasks handlers ++ [i]).takeWhile (· ≠ i) = tasks handlers :=
        takeWhile_of_nodup (tasks_concat handlers i ▸ nodup_tasks hnodup)
      rw [served_task, tasks_concat, List.flatMap_append, hearlier, ← hbegins,
        List.flatMap_singleton, block, hplace]
      cases call i with
      | upload events => exact (List.append_nil _).symm
      | playback env stopRequested =>
        rw [← served_cached]
        exact Device.playback_written env stopRequested _

end Order

/-- A loop that ends without error and without a stop has written every frame. -/
theorem playEvents_complete (env : Devices) {stopRequested : ℕ → Bool}
    (hgo : ∀ n, stopRequested n = false) (i : ℕ) (events : List InputEvent) {l : Loop}
    (hw : InputEventWriter.Remembers env l.writer)
    (hcode : (playEvents env stopRequested i events l).1.code = 0) :
    (playEvents env stopRequested i events l).2.writer.written =
      l.writer.written ++ (events.map InputEvent.rawWrite).flatMap env.played := by
  induction events generalizing i l with
  | nil => exact (List.append_nil _).symm
  | cons e rest ih =>
    obtain ⟨hremembers, -, -, part, -, hwritten, hall⟩ :=
      InputEventWriter.write_spec hw e.rawWrite
    rw [playEvents_cons env (hgo i)] at hcode ⊢
    cases hok : (writeInput env l.writer e).1 with
    | true =>
      rw [hok, if_pos rfl] at hcode
      have hpart : part = env.played e.rawWrite := hall hok
      have hfirst : (l.next env i e).writer.written = l.writer.written ++ env.played e.rawWrite :=
        hwritten.trans (by rw [hpart])
      rw [if_pos rfl, ih (i + 1) (l := l.next env i e) hremembers hcode, hfirst, List.map_cons,
        List.flatMap_cons, List.append_assoc]
    | false =>
      rw [hok, if_neg Bool.false_ne_true] at hcode
      exact absurd (show (2 : ℤ) = 0 from hcode) (by decide)

/-- What playback writes is the beginning of the frames of the recording; it is all of them if
playback ends without error and without a stop. Without a recording there is an error. -/
theorem playback_spec (env : Devices) (stopRequested : ℕ → Bool) (cached : List InputEvent) :
    let r := LocalPlayback.playback env stopRequested cached
    r.2.writer.written <+: (cached.map InputEvent.rawWrite).flatMap env.played ∧
      (r.1.code = 1 ↔ cached = []) ∧
      (r.1.code = 0 → (∀ n, stopRequested n = false) →
        r.2.writer.written = (cached.map InputEvent.rawWrite).flatMap env.played) := by
  cases cached with
  | nil => exact ⟨List.nil_prefix, iff_of_true rfl rfl, fun _ _ => rfl⟩
  | cons e rest =>
    obtain ⟨-, -, hcodes, part, hpart, hwritten⟩ := playEvents_spec env stopRequested 0 (e :: rest)
      (l := .start) (InputEventWriter.remembers_new env)
    refine ⟨?_, iff_of_false (fun hone => ?_) (List.cons_ne_nil _ _), fun hcode hgo => ?_⟩
    · exact hwritten ▸ hpart
    · change (playEvents env stopRequested 0 (e :: rest) .start).1.code = 1 at hone
      rcases hcodes with hzero | htwo <;> omega
    · exact playEvents_complete env hgo 0 (e :: rest) (l := .start)
        (InputEventWriter.remembers_new env) hcode

section Service

variable {ι : Type*} [DecidableEq ι]

/-- The playback service: checked calls on the posted playback object. -/
def step (request : ι → BusinessCalls.Request) (call : ι → Call) :
    BusinessCalls.State (fun _ : ι => Answer) Device → BusinessCalls.Label ι →
      Option (BusinessCalls.State (fun _ : ι => Answer) Device) :=
  BusinessCalls.step request (fun i => (call i).perform) none

variable {request : ι → BusinessCalls.Request} {call : ι → Call}

/-- The calls that the worker has performed, and the device after them. -/
theorem served_run {r : SessionRegistry} {labels : List (BusinessCalls.Label ι)}
    {t : BusinessCalls.State (fun _ : ι => Answer) Device}
    (h : Machine.run (step request call) (BusinessCalls.initial r .new) labels = some t) :
    t.dispatch.completed.Nodup ∧ t.dispatch.object = served call t.dispatch.completed ∧
      ∀ i answer, t.dispatch.calls i = .returned answer → i ∈ tasks t.dispatch.completed →
        ∃ before rest, t.dispatch.completed = before ++ .task i :: rest ∧
          answer = ((call i).perform (served call before)).1 := by
  have ht := SyncDispatchQueue.linearized_run (BusinessCalls.dispatch_run h)
  refine ⟨ht.coherent.nodup_completed, ht.linear.object, fun i answer hi hmem => ?_⟩
  rcases ht.returned hi with hanswers | ⟨hnot, -, -⟩
  · exact hanswers
  · exact absurd (mem_tasks.mp hmem) hnot

/-- What is written at any moment is the blocks of the calls in order. -/
theorem written_run {r : SessionRegistry} {labels : List (BusinessCalls.Label ι)}
    {t : BusinessCalls.State (fun _ : ι => Answer) Device}
    (h : Machine.run (step request call) (BusinessCalls.initial r .new) labels = some t) :
    t.dispatch.object.written =
      (tasks t.dispatch.completed).flatMap (block call (tasks t.dispatch.completed)) := by
  obtain ⟨hnodup, hobject, -⟩ := served_run h
  rw [hobject]
  exact served_written call hnodup

/-- What a playback writes at its place in the order, and what it returns. -/
theorem playback_at_place {r : SessionRegistry} {labels : List (BusinessCalls.Label ι)}
    {t : BusinessCalls.State (fun _ : ι => Answer) Device}
    (h : Machine.run (step request call) (BusinessCalls.initial r .new) labels = some t) {i : ι}
    {env : Devices} {stopRequested : ℕ → Bool} (hcall : call i = .playback env stopRequested)
    {before rest : List ι} (hsplit : tasks t.dispatch.completed = before ++ i :: rest) :
    block call (tasks t.dispatch.completed) i <+:
        ((latest call before).map InputEvent.rawWrite).flatMap env.played ∧
      ∀ answer, t.dispatch.calls i = .returned answer →
        (answer.result.code = 1 ↔ latest call before = []) ∧
        (answer.ok = true ↔ answer.result.code = 0) ∧
        (answer.ok = true → (∀ n, stopRequested n = false) →
          block call (tasks t.dispatch.completed) i =
            ((latest call before).map InputEvent.rawWrite).flatMap env.played) := by
  obtain ⟨hnodup, -, hanswers⟩ := served_run h
  have horder := nodup_tasks hnodup
  have hmem : i ∈ tasks t.dispatch.completed := by simp [hsplit]
  have hblock : block call (tasks t.dispatch.completed) i = (LocalPlayback.playback env
      stopRequested (latest call before)).2.writer.written := by
    rw [hsplit] at horder
    rw [block, hcall, hsplit, takeWhile_of_nodup horder]
  obtain ⟨hbegins, hnone, hcomplete⟩ := playback_spec env stopRequested (latest call before)
  rw [hblock]
  refine ⟨hbegins, fun answer hanswer => ?_⟩
  obtain ⟨earlier, later, hcompleted, rfl⟩ := hanswers i answer hanswer hmem
  have hplace : tasks t.dispatch.completed = tasks earlier ++ i :: tasks later := by
    simp [hcompleted, tasks]
  have hbefore : tasks earlier = before := by
    have htwice : (tasks earlier ++ i :: tasks later).takeWhile (· ≠ i) =
        (before ++ i :: rest).takeWhile (· ≠ i) := by
      rw [← hplace, hsplit]
    rwa [takeWhile_of_nodup (hplace ▸ horder), takeWhile_of_nodup (hsplit ▸ horder)] at htwice
  have hstatus : ((call i).perform (served call earlier)).1 =
      ⟨(LocalPlayback.playback env stopRequested (latest call before)).1.code = 0,
        (LocalPlayback.playback env stopRequested (latest call before)).1⟩ := by
    rw [hcall, ← hbefore, ← served_cached]
    exact Device.playback_answer env stopRequested _
  rw [hstatus]
  exact ⟨hnone, decide_eq_true_iff, fun hok => hcomplete (of_decide_eq_true hok)⟩

/-- In every run of the service the calls take effect in the order in which the worker performs
them. It has every call that has returned, unless that was refused behind the shutdown, none that
has not begun, and a call that has returned stands before all that begin later. The files hold the
pieces of the playbacks in this order. Each piece is the beginning of the frames of one upload, the
latest before the playback, whoever made it; it is all of them if the call returns without error
and no stop was seen, and the call fails for want of a recording exactly if that upload is empty
or there is none. -/
theorem playbacks_play_latest_upload {r : SessionRegistry} {labels : List (BusinessCalls.Label ι)}
    {t : BusinessCalls.State (fun _ : ι => Answer) Device}
    (h : Machine.run (step request call) (BusinessCalls.initial r .new) labels = some t) :
    (tasks t.dispatch.completed).Nodup ∧
      (∀ i answer, t.dispatch.calls i = .returned answer →
        i ∈ tasks t.dispatch.completed ∨ .shutdown ∈ t.dispatch.completed ∧ answer = default) ∧
      (∀ i ∈ tasks t.dispatch.completed, t.dispatch.calls i ≠ .entry) ∧
      (∀ begun rest s, labels = begun ++ rest →
        Machine.run (step request call) (BusinessCalls.initial r .new) begun = some s →
        ∀ i answer j, s.dispatch.calls i = .returned answer → s.dispatch.calls j = .entry →
          i ∈ tasks t.dispatch.completed → j ∈ tasks t.dispatch.completed →
            Precedes (tasks t.dispatch.completed) i j) ∧
      t.dispatch.object.written =
        (tasks t.dispatch.completed).flatMap (block call (tasks t.dispatch.completed)) ∧
      ∀ i env stopRequested, call i = .playback env stopRequested →
        ∀ before rest, tasks t.dispatch.completed = before ++ i :: rest →
          block call (tasks t.dispatch.completed) i <+:
            ((latest call before).map InputEvent.rawWrite).flatMap env.played ∧
          ∀ answer, t.dispatch.calls i = .returned answer →
            (answer.result.code = 1 ↔ latest call before = []) ∧
            (answer.ok = true ↔ answer.result.code = 0) ∧
            (answer.ok = true → (∀ n, stopRequested n = false) →
              block call (tasks t.dispatch.completed) i =
                ((latest call before).map InputEvent.rawWrite).flatMap env.played) := by
  have ht := SyncDispatchQueue.linearized_run (BusinessCalls.dispatch_run h)
  refine ⟨nodup_tasks ht.coherent.nodup_completed, fun i answer hi => ?_,
    fun i hmem hentry => ?_, ?_, written_run h,
    fun _ _ _ hcall _ _ hsplit => playback_at_place h hcall hsplit⟩
  · rcases ht.returned hi with ⟨before, rest, hcompleted, -⟩ | ⟨-, hshut, hdefault⟩
    · exact Or.inl (mem_tasks.mpr (by simp [hcompleted]))
    · exact Or.inr ⟨hshut, hdefault⟩
  · have hposted := ht.coherent.completed_prefix.subset (mem_tasks.mp hmem)
    exact ht.coherent.not_mem_order (by rw [hentry]; rfl) hposted
  · rintro begun rest s rfl hbegun i answer j hi hj hidone hjdone
    obtain ⟨u, hu, hrest⟩ := (Machine.run_append_some _).mp h
    obtain rfl := Option.some.inj (hbegun.symm.trans hu)
    have hs := SyncDispatchQueue.linearized_run (BusinessCalls.dispatch_run hbegun)
    exact precedes_tasks (SyncDispatchQueue.precedes_of_returned hs.coherent ht.coherent
      (BusinessCalls.dispatch_run hrest) hi hj (mem_tasks.mp hidone) (mem_tasks.mp hjdone))

end Service

/-- Two uploads and a playback. -/
def overwritten : Fin 3 → Call
  | 0 => .upload (keyTap.map InputEvent.toProto)
  | 1 => .upload []
  | 2 => .playback keyboardAndMouse fun _ => false

/-- A call from its check to its return. -/
def oneCall (i : Fin 3) : List (BusinessCalls.Label (Fin 3)) :=
  [.session i 1, .dispatch (.check i), .dispatch (.post i), .dispatch .worker, .dispatch .worker,
    .dispatch (.wait i)]

theorem overwritten_run : ∃ t answer,
    Machine.run (step (fun _ => ⟨[(kSessionMetadataKey, "12")], "p"⟩) overwritten)
      (BusinessCalls.initial (SessionRegistry.make 3000 0) .new)
      (.registry (.connect "p" [randomSessionId 1 2] 0) :: [0, 1, 2].flatMap oneCall) = some t ∧
      t.dispatch.calls 2 = .returned answer ∧ tasks t.dispatch.completed = [0, 1, 2] :=
  ⟨_, _, rfl, rfl, rfl⟩

theorem playbacks_play_latest_upload_overwritten : ∃ t answer,
    Machine.run (step (fun _ => ⟨[(kSessionMetadataKey, "12")], "p"⟩) overwritten)
      (BusinessCalls.initial (SessionRegistry.make 3000 0) .new)
      (.registry (.connect "p" [randomSessionId 1 2] 0) :: [0, 1, 2].flatMap oneCall) = some t ∧
      t.dispatch.calls 2 = .returned answer ∧ answer.result.code = 1 ∧
      t.dispatch.object.written = [] := by
  obtain ⟨t, answer, ht, hanswer, horder⟩ := overwritten_run
  obtain ⟨-, -, -, -, hwritten, hplaced⟩ := playbacks_play_latest_upload ht
  obtain ⟨hbegins, hreturned⟩ := hplaced 2 _ _ rfl [0, 1] [] horder
  refine ⟨t, answer, ht, hanswer, (hreturned answer hanswer).1.mpr rfl, ?_⟩
  have hnothing : block overwritten [0, 1, 2] 2 = [] := by
    rw [horder] at hbegins
    exact List.prefix_nil.mp hbegins
  rw [hwritten, horder, List.flatMap_cons, List.flatMap_cons, List.flatMap_singleton, hnothing]
  rfl

end PlaybackService

end Evrp
