import Evrp.Device.PlaybackService
import Evrp.Sdk.EnhancedFileSystem
import Evrp.Sdk.LogRelay
import Evrp.Server.RecordReplay

/-!
# Replaying a file

Replay reads a file to its end, composes its text to events and has the device
play them: one upload and one playback, which another client may interrupt by an
upload of its own. A file that a recording has written comes back from the
devices as the frames of the recorded events.
-/

namespace Evrp

namespace Playback

open PlaybackService Word
open LogRelay (LogLevel LogService)

/-- What a replay meets: its settings, its parts, the log service with the calls that fit on the
stack, the file and an interrupt before it starts. -/
structure Env where
  playbackPath : String
  logLevel : LogLevel
  hasPlayback : Bool
  hasFileSystem : Bool
  logService : LogService
  stack : ℕ
  openFd : Bool
  input : InputFile
  stopRequested : Bool

/-- How the device answers: the result of a call and its reference parameter. -/
structure Remote where
  upload : List InputEvent → Bool × StatusCode
  playback : Bool × StatusCode

/-- A call on the device. -/
inductive RemoteCall where
  | upload (events : List InputEvent)
  | playback
  deriving DecidableEq, Repr

/-- Upload the events and play them; the second call is made only behind a successful first. -/
def deviceUploadAndPlay (remote : Remote) (events : List InputEvent) : Bool × List RemoteCall :=
  if events.isEmpty then (true, [])
  else if !(remote.upload events).1 || (remote.upload events).2.code != 0 then
    (false, [.upload events])
  else if !remote.playback.1 || remote.playback.2.code != 0 then
    (false, [.upload events, .playback])
  else (true, [.upload events, .playback])

/-- The exit code of a replay and the calls it has made on the device; there is none if the
process ends while the replay sets the level of the log service. -/
def run (lua : List Char → ℤ × List InputEvent) (env : Env) (remote : Remote) :
    Option (ℤ × List RemoteCall) :=
  if env.playbackPath.isEmpty then some (1, [])
  else if !env.hasPlayback then some (1, [])
  else if !env.hasFileSystem then some (1, [])
  else (env.logService.setLevel env.stack env.logService env.logLevel).map fun _ =>
    if !env.openFd then (1, [])
    else
      let content := readInputAll env.input
      if !content.1 then (1, [])
      else
        let composed := toEvents lua content.2
        if composed.1 ≠ 0 then (1, [])
        else if composed.2.isEmpty then (1, [])
        else if env.stopRequested then (1, [])
        else
          let played := deviceUploadAndPlay remote composed.2
          (if played.1 then 0 else 1, played.2)

/-- The client's view of a finished call. -/
def remoteResult : Rpc → Bool × StatusCode
  | .failed status => (false, status)
  | .response result => (result.code = 0, result)

/-- The file can be read, no tee is over the logger, and nothing keeps the replay from using the
device. -/
structure Env.Ready (env : Env) : Prop where
  path : env.playbackPath ≠ ""
  hasPlayback : env.hasPlayback = true
  hasFileSystem : env.hasFileSystem = true
  logService : env.logService = .logger
  openFd : env.openFd = true
  readable : ReadAnswer.error ∉ env.input.answers
  running : env.stopRequested = false

/-- A replay that is ready is decided by the text and by the device. -/
theorem run_of_ready {lua : List Char → ℤ × List InputEvent} {env : Env} (henv : env.Ready)
    (remote : Remote) {events : List InputEvent} (hne : events ≠ [])
    (hevents : toEvents lua env.input.text = (0, events)) :
    run lua env remote =
      some (if (deviceUploadAndPlay remote events).1 then 0 else 1,
        (deviceUploadAndPlay remote events).2) := by
  have hpath : env.playbackPath.isEmpty = false := by
    simpa [String.isEmpty_iff] using henv.path
  have hempty : events.isEmpty = false := by simpa using hne
  simp [run, hpath, henv.hasPlayback, henv.hasFileSystem, henv.logService,
    LogService.setLevel, henv.openFd, readInputAll_of_no_error henv.readable, hevents, hempty,
    henv.running]

/-- Behind the tee of a connected device a replay does not come to its file. -/
theorem run_of_tee (lua : List Char → ℤ × List InputEvent) {env : Env} {primary : LogService}
    (hpath : env.playbackPath ≠ "") (hparts : env.hasPlayback = true ∧ env.hasFileSystem = true)
    (htee : env.logService = .tee primary) (remote : Remote) : run lua env remote = none := by
  have hempty : env.playbackPath.isEmpty = false := by simpa [String.isEmpty_iff] using hpath
  simp [run, hempty, hparts, htee, LogService.setLevel_tee]

/-- Times do not matter to what playback writes. -/
theorem rawWrite_setEventTimeUs (e : InputEvent) (t : ℤ) :
    (setEventTimeUs e t).rawWrite = e.rawWrite := rfl

/-- What a recording is composed to has the widths of the message. -/
theorem sized_setEventTimeUs {e first : InputEvent} (he : Record.Replayable e)
    (hfirst : Record.Replayable first) (hle : first.timeUs ≤ e.timeUs) :
    (setEventTimeUs e (e.timeUs - first.timeUs)).Sized := by
  obtain ⟨htype, hcode⟩ := he.evdev
  obtain ⟨-, hu⟩ := he.fits_sub hfirst
  have hnonneg := sub_nonneg.mpr hle
  rw [setEventTimeUs_of_nonneg e hnonneg]
  generalize e.timeUs - first.timeUs = t at hu hnonneg
  refine ⟨?_, ?_, ?_, ?_, he.value⟩
  · simp only [Fits64]
    omega
  · simp only [Fits64]
    omega
  · exact htype.trans (by decide)
  · exact hcode.trans (by decide)

section Recorded

variable {mode : KeyboardCtrlCFilterMode} {env : RecordEnv}
  {polls : List (Option (List InputEvent))}

/-- The text of a recording is composed to events of message width that write what was recorded. -/
theorem toEvents_recorded (lua : List Char → ℤ × List InputEvent)
    (hcode : (Record.run mode env polls).1 = 0)
    (hne : (Record.run mode env polls).2.eventLines ≠ [])
    (hes : ∀ e ∈ (Record.run mode env polls).2.eventLines, Record.Replayable e) :
    ∃ events, toEvents lua (Record.run mode env polls).2.file.text = (0, events) ∧ events ≠ [] ∧
      (∀ e ∈ events, e.Sized) ∧ events.map InputEvent.rawWrite =
        (Record.run mode env polls).2.eventLines.map InputEvent.rawWrite := by
  obtain ⟨first, hfirst, hleast, hevents⟩ := Record.toEvents_eventLines lua hcode hne hes
  refine ⟨_, hevents, ?_, ?_, ?_⟩
  · simpa using hne
  · intro x hx
    obtain ⟨e, he, rfl⟩ := List.mem_map.mp hx
    exact sized_setEventTimeUs (hes e he) (hes first hfirst) (hleast e he)
  · rw [List.map_map]
    exact List.map_congr_left fun e _ => rawWrite_setEventTimeUs e _

variable {ι : Type*} [DecidableEq ι] {request : ι → BusinessCalls.Request} {call : ι → Call}

/-- The Upload of one client is followed by its Playback, and no other upload is in between. -/
def Undisturbed (call : ι → Call) (order : List ι) (u p : ι) : Prop :=
  ∃ xs ys zs, order = xs ++ u :: ys ++ p :: zs ∧ ∀ j ∈ ys, (call j).uploaded = none

omit [DecidableEq ι] in
theorem Undisturbed.latest {order : List ι} {u p : ι} {events : List InputEvent}
    (h : Undisturbed call order u p) (hu : (call u).uploaded = some events) :
    ∃ before rest, order = before ++ p :: rest ∧ PlaybackService.latest call before = events := by
  obtain ⟨xs, ys, zs, rfl, hnone⟩ := h
  refine ⟨xs ++ u :: ys, zs, rfl, ?_⟩
  have hsplit : xs ++ u :: ys = xs ++ [u] ++ ys := by simp
  rw [hsplit, latest_append_of_none call hnone, latest_concat_upload call hu]

/-- What the client makes of an answer to its upload. -/
theorem remoteResult_uploadReply (events : List InputEvent) (d : Device) :
    remoteResult (uploadReply (d.upload events).1) = (true, ⟨0, ""⟩) := rfl

/-- What the client makes of an answer to its playback. -/
theorem remoteResult_playbackReply {a : Answer} (ha : a.ok = true ↔ a.result.code = 0) :
    (remoteResult (playbackReply a)).1 = a.ok ∧
      (a.ok = true → (remoteResult (playbackReply a)).2.code = 0) := by
  unfold playbackReply
  split
  · rename_i hok
    have hcode := ha.mp hok
    exact ⟨by simp [remoteResult, hcode, hok], fun _ => hcode⟩
  · rename_i hfailed
    exact ⟨by simpa [remoteResult] using hfailed, fun hok => absurd hok hfailed⟩

/-- Replaying the file of a successful recording, read in pieces of any size and while no tee is
over the logger, makes one upload and one playback. If no other upload gets between these two on
the device, what the playback writes at its place is one piece: the beginning of the frames of the
recorded events in order. The replay succeeds exactly if the playback does, and then, without a
stop, the piece is all of them. -/
theorem recording_replays (lua : List Char → ℤ × List InputEvent)
    (hcode : (Record.run mode env polls).1 = 0)
    (hne : (Record.run mode env polls).2.eventLines ≠ [])
    (hes : ∀ e ∈ (Record.run mode env polls).2.eventLines, Record.Replayable e)
    {renv : Env} (hready : renv.Ready)
    (htext : renv.input.text = (Record.run mode env polls).2.file.text)
    {r : SessionRegistry} {labels : List (BusinessCalls.Label ι)}
    {t : BusinessCalls.State (fun _ : ι => Answer) Device}
    (h : Machine.run (step request call) (BusinessCalls.initial r .new) labels = some t)
    {u p : ι} {devices : Devices} {stopRequested : ℕ → Bool}
    (hu : call u = .upload ((toEvents lua renv.input.text).2.map InputEvent.toProto))
    (hp : call p = .playback devices stopRequested) {uploaded played : Answer}
    (hureturned : t.dispatch.calls u = .returned uploaded)
    (hpreturned : t.dispatch.calls p = .returned played)
    (hundisturbed : Undisturbed call (tasks t.dispatch.completed) u p) :
    run lua renv ⟨fun _ => remoteResult (uploadReply uploaded),
        remoteResult (playbackReply played)⟩ =
      some (if played.ok then 0 else 1,
        [.upload (toEvents lua renv.input.text).2, .playback]) ∧
      (∃ before rest, tasks t.dispatch.completed = before ++ p :: rest ∧
        t.dispatch.object.written = before.flatMap (block call (tasks t.dispatch.completed)) ++
          block call (tasks t.dispatch.completed) p ++
            rest.flatMap (block call (tasks t.dispatch.completed))) ∧
      block call (tasks t.dispatch.completed) p <+:
        ((Record.run mode env polls).2.eventLines.map InputEvent.rawWrite).flatMap
          devices.played ∧
      (played.ok = true → (∀ n, stopRequested n = false) →
        block call (tasks t.dispatch.completed) p =
          ((Record.run mode env polls).2.eventLines.map InputEvent.rawWrite).flatMap
            devices.played) := by
  obtain ⟨events, hevents, hnonempty, hsized, hraw⟩ := toEvents_recorded lua hcode hne hes
  rw [htext, hevents] at hu
  have harrived : (call u).uploaded = some events := by
    rw [hu, Call.uploaded, InputEvent.map_fromProto_toProto hsized]
  obtain ⟨before, rest, hsplit, hlatest⟩ := hundisturbed.latest harrived
  have humem : u ∈ tasks t.dispatch.completed := by
    obtain ⟨xs, ys, zs, horder, -⟩ := hundisturbed
    simp [horder]
  obtain ⟨earlier, -, -, rfl⟩ := (served_run h).2.2 u uploaded hureturned humem
  obtain ⟨hbegins, hanswer⟩ := playback_at_place h hp hsplit
  obtain ⟨-, hok, hcomplete⟩ := hanswer played hpreturned
  rw [hlatest, hraw] at hbegins hcomplete
  refine ⟨?_, ⟨before, rest, hsplit, ?_⟩, hbegins, hcomplete⟩
  · obtain ⟨hplayed, hplayedCode⟩ := remoteResult_playbackReply hok
    rw [run_of_ready hready _ hnonempty (htext ▸ hevents), htext, hevents, hu]
    have hempty : events.isEmpty = false := by simpa using hnonempty
    cases hresult : played.ok with
    | false =>
      simp [deviceUploadAndPlay, hempty, Call.perform, remoteResult_uploadReply, hplayed, hresult]
    | true =>
      simp [deviceUploadAndPlay, hempty, Call.perform, remoteResult_uploadReply, hplayed, hresult,
        hplayedCode hresult]
  · rw [written_run h]
    generalize block call (tasks t.dispatch.completed) = blocks
    simp [hsplit]

end Recorded

/-- A replay that reads its file in pieces. -/
def replayEnv (text : List Char) : Env :=
  ⟨"take.txt", .info, true, true, .logger, 0, true, ⟨text, [.read 0, .eintr, .read 7]⟩, false⟩

/-- The two calls of a replay. -/
def replayCalls (events : List InputEvent) : Bool → Call
  | false => .upload (events.map InputEvent.toProto)
  | true => .playback keyboardAndMouse fun _ => false

def replayLabels : List (BusinessCalls.Label Bool) :=
  .registry (.connect "p" [randomSessionId 1 2] 0) :: [false, true].flatMap fun i =>
    [.session i 1, .dispatch (.check i), .dispatch (.post i), .dispatch .worker, .dispatch .worker,
      .dispatch (.wait i)]

/-- The playback of a recording succeeds where every write does. -/
theorem playback_ok {cached : List InputEvent} (hne : cached ≠ []) :
    (LocalPlayback.playback keyboardAndMouse (fun _ => false) cached).1.code = 0 := by
  cases cached with
  | nil => exact absurd rfl hne
  | cons first rest =>
    obtain ⟨-, hcode, -⟩ := LocalPlayback.playEvents_spec keyboardAndMouse (fun _ => false) 0
      (first :: rest) (l := .start) (InputEventWriter.remembers_new keyboardAndMouse)
    exact hcode.mpr fun _ _ _ => rfl

theorem replayLabels_run (events : List InputEvent) (hne : events ≠ []) : ∃ t uploaded played,
    Machine.run (step (fun _ => ⟨[(kSessionMetadataKey, "12")], "p"⟩) (replayCalls events))
      (BusinessCalls.initial (SessionRegistry.make 3000 0) .new) replayLabels = some t ∧
      t.dispatch.calls false = .returned uploaded ∧ t.dispatch.calls true = .returned played ∧
      played.ok = true ∧ tasks t.dispatch.completed = [false, true] := by
  have hcached : (events.map InputEvent.toProto).map InputEvent.fromProto ≠ [] := by
    simpa using hne
  have hplays (d : Device) (hd : d.player.cached = (events.map InputEvent.toProto).map
      InputEvent.fromProto) : (d.playback keyboardAndMouse fun _ => false).1.ok = true := by
    rw [Device.playback_answer, hd]
    exact decide_eq_true (playback_ok hcached)
  exact ⟨_, _, _, rfl, rfl, rfl, hplays _ rfl, rfl⟩

theorem recording_replays_unorderedBatch : ∃ renv events t uploaded played,
    Machine.run (step (fun _ => ⟨[(kSessionMetadataKey, "12")], "p"⟩) (replayCalls events))
      (BusinessCalls.initial (SessionRegistry.make 3000 0) .new) replayLabels = some t ∧
      run (fun _ => (0, [])) renv ⟨fun _ => remoteResult (uploadReply uploaded),
        remoteResult (playbackReply played)⟩ = some (0, [.upload events, .playback]) ∧
      t.dispatch.object.written = (Record.unorderedBatch.map InputEvent.rawWrite).flatMap
        keyboardAndMouse.played := by
  have hcode := Record.run_code_reliableEnv .full (fun n => ⟨n, 0⟩) [some Record.unorderedBatch]
  have hlines : (Record.run .full (Record.reliableEnv fun n => ⟨n, 0⟩)
      [some Record.unorderedBatch]).2.eventLines = Record.unorderedBatch :=
    (Record.run_eventLines_reliableEnv .full _ _).2
  have hnonempty : (Record.run .full (Record.reliableEnv fun n => ⟨n, 0⟩)
      [some Record.unorderedBatch]).2.eventLines ≠ [] := by
    rw [hlines]
    decide
  have hreplayable : ∀ e ∈ (Record.run .full (Record.reliableEnv fun n => ⟨n, 0⟩)
      [some Record.unorderedBatch]).2.eventLines, Record.Replayable e := by
    rw [hlines]
    decide
  obtain ⟨composed, hcomposed, hne, -⟩ :=
    toEvents_recorded (fun _ => (0, [])) hcode hnonempty hreplayable
  obtain ⟨text, htext⟩ : ∃ text, text = (Record.run .full (Record.reliableEnv fun n => ⟨n, 0⟩)
      [some Record.unorderedBatch]).2.file.text := ⟨_, rfl⟩
  obtain ⟨events, hevents⟩ : ∃ events, events = (toEvents (fun _ => (0, [])) text).2 := ⟨_, rfl⟩
  have hready : (replayEnv text).Ready :=
    ⟨by simp [replayEnv], rfl, rfl, rfl, rfl, by simp [replayEnv], rfl⟩
  have hu : replayCalls events false = .upload
      ((toEvents (fun _ => (0, [])) (replayEnv text).input.text).2.map InputEvent.toProto) :=
    congrArg (fun es => Call.upload (List.map InputEvent.toProto es)) hevents
  have heventsNe : events ≠ [] := by
    rw [hevents, htext, hcomposed]
    exact hne
  obtain ⟨t, uploaded, played, ht, huploaded, hplayed, hok, horder⟩ :=
    replayLabels_run events heventsNe
  obtain ⟨hrun, ⟨before, rest, hsplit, hwritten⟩, -, hall⟩ := recording_replays (fun _ => (0, []))
    hcode hnonempty hreplayable hready htext ht hu (show replayCalls events true = _ from rfl)
    huploaded hplayed ⟨[], [], [], horder, fun _ hj => absurd hj List.not_mem_nil⟩
  rw [hlines] at hall
  rw [hok, if_pos rfl] at hrun
  refine ⟨replayEnv text, events, t, uploaded, played, ht, hevents ▸ hrun, ?_⟩
  obtain ⟨rfl, rfl⟩ : before = [false] ∧ rest = [] := by
    rw [horder] at hsplit
    rcases before with _ | ⟨b, _ | ⟨c, before⟩⟩
    · simp at hsplit
    · simpa [eq_comm] using hsplit
    · simp at hsplit
  rw [hwritten, hall hok fun _ => rfl]
  exact List.append_nil _

end Playback

end Evrp
