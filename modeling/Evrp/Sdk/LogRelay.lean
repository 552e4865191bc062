import Mathlib.Data.Int.Notation
import Mathlib.Data.List.Nodup
import Evrp.Lib.Machine
import Evrp.Sdk.AsyncLogBuffer

/-!
# Log relaying between server and device

Each process replaces its global log service by a tee that sends every line to
the peer and then stores it in the process's own sink. A line received from the
peer is logged through the same global service, so it takes the send path as
well. A line carries the number of the call it comes from and how often it was
received; the program knows neither. The log library's level order and its
translation to the wire are parameters. The level of the tee is set through the
global service as well, and so without end.
-/

namespace Evrp

namespace LogRelay

/-- The levels of the log library. -/
inductive LogLevel where
  | off
  | error
  | warning
  | info
  | debug
  | trace
  deriving DecidableEq, Repr

/-- What the relay uses of the log library: the enumeration's values and the translation of
levels to the wire and back. -/
structure Library where
  value : LogLevel → ℤ
  levelToSpdlog : LogLevel → ℤ
  spdlogToLevel : ℤ → LogLevel

/-- A log line, the call it originates from and how often it was received from the peer. -/
structure Line where
  text : String
  origin : ℕ
  hops : ℕ
  deriving DecidableEq, Repr

/-- A line as a sink and a buffer hold it. -/
structure LogMessage where
  level : LogLevel
  line : Line
  deriving DecidableEq, Repr

/-- A line as the stream carries it. -/
structure StreamMessage where
  spdlogLevel : ℤ
  formattedLine : Line
  deriving DecidableEq, Repr

/-- Both processes joined by one stream: sinks, thresholds, the device's buffer for the
stream, the messages in flight and all messages ever written to the stream. -/
structure State where
  serverSink : List LogMessage
  activeStream : Bool
  deviceSink : List LogMessage
  threshold : LogLevel
  buffer : AsyncLogBuffer LogMessage
  toDevice : List StreamMessage
  toServer : List StreamMessage
  sentToDevice : List StreamMessage
  sentToServer : List StreamMessage
  calls : ℕ
  deriving DecidableEq, Repr

/-- The stream is open and nothing has been logged yet. -/
def initial (threshold : LogLevel) : State :=
  ⟨[], true, [], threshold, .empty, [], [], [], [], 0⟩

/-- The tee sends first and stores then. -/
def LogServiceTee.log (sender primary : LogLevel → Line → State → State) (level : LogLevel)
    (line : Line) (s : State) : State :=
  primary level line (sender level line s)

variable (lib : Library)

/-- A line received from the peer with the receiver's mark. -/
def Line.received (mark : String) (line : Line) : Line :=
  ⟨mark ++ line.text, line.origin, line.hops + 1⟩

namespace RemoteLogService

/-- The server's write to the stream. -/
def writeOutbound (level : LogLevel) (line : Line) (s : State) : State :=
  if s.activeStream then
    let outbound : StreamMessage := ⟨lib.levelToSpdlog level, line⟩
    { s with toDevice := s.toDevice ++ [outbound], sentToDevice := s.sentToDevice ++ [outbound] }
  else s

/-- The server's sink. -/
def primaryLog (level : LogLevel) (line : Line) (s : State) : State :=
  { s with serverSink := s.serverSink ++ [⟨level, line⟩] }

/-- The global log service of the server. -/
def logService : LogLevel → Line → State → State :=
  LogServiceTee.log (writeOutbound lib) primaryLog

/-- The server logs what it reads from the stream. -/
def ingestInbound (msg : StreamMessage) (s : State) : State :=
  logService lib (lib.spdlogToLevel msg.spdlogLevel) (msg.formattedLine.received "[evrp-device] ") s

end RemoteLogService

namespace GrpcLogService

/-- The device's sender: below the threshold nothing is published. -/
def sendLog (level : LogLevel) (line : Line) (s : State) : State :=
  if lib.value level < lib.value s.threshold then s
  else { s with buffer := s.buffer.push ⟨level, line⟩ }

/-- The device's sink. -/
def primaryLog (level : LogLevel) (line : Line) (s : State) : State :=
  { s with deviceSink := s.deviceSink ++ [⟨level, line⟩] }

/-- The global log service of the device. -/
def logService : LogLevel → Line → State → State :=
  LogServiceTee.log (sendLog lib) primaryLog

/-- The device's receiver: below the threshold nothing is logged. -/
def receiveLog (level : LogLevel) (line : Line) (s : State) : State :=
  if lib.value level < lib.value s.threshold then s else logService lib level line s

/-- The device logs what it reads from the stream. -/
def ingestInbound (msg : StreamMessage) (s : State) : State :=
  receiveLog lib (lib.spdlogToLevel msg.spdlogLevel) (msg.formattedLine.received "[remote] ") s

/-- One turn of the writing loop of the stream. -/
def streamLogsTurn (s : State) : State :=
  match s.buffer.waitPopFor with
  | (some m, buffer) =>
    let outbound : StreamMessage := ⟨lib.levelToSpdlog m.level, m.line⟩
    { s with
      buffer := buffer
      toServer := s.toServer ++ [outbound]
      sentToServer := s.sentToServer ++ [outbound] }
  | (none, buffer) => { s with buffer := buffer }

end GrpcLogService

/-- A log call made by the code of one process. -/
inductive Call where
  | server (level : LogLevel) (text : String)
  | device (level : LogLevel) (text : String)
  deriving DecidableEq, Repr

def Call.level : Call → LogLevel
  | .server level _ => level
  | .device level _ => level

/-- A log call, a turn of the device's writing loop, or the delivery of any message in
flight. -/
inductive Label where
  | call (c : Call)
  | streamLogsTurn
  | deliverToDevice (i : ℕ)
  | deliverToServer (i : ℕ)
  deriving DecidableEq, Repr

/-- The log call of a label. -/
def Label.call? : Label → Option Call
  | .call c => some c
  | _ => none

/-- A process logs a line of its own. -/
def callStep (s : State) : Call → State
  | .server level text =>
    RemoteLogService.logService lib level ⟨text, s.calls, 0⟩ { s with calls := s.calls + 1 }
  | .device level text =>
    GrpcLogService.logService lib level ⟨text, s.calls, 0⟩ { s with calls := s.calls + 1 }

def step (s : State) : Label → Option State
  | .call c => some (callStep lib s c)
  | .streamLogsTurn => some (GrpcLogService.streamLogsTurn lib s)
  | .deliverToDevice i => s.toDevice[i]?.map fun msg =>
    GrpcLogService.ingestInbound lib msg { s with toDevice := s.toDevice.eraseIdx i }
  | .deliverToServer i => s.toServer[i]?.map fun msg =>
    RemoteLogService.ingestInbound lib msg { s with toServer := s.toServer.eraseIdx i }

/-- How often the line of a call is in a sink. -/
def occurrences (sink : List LogMessage) (origin : ℕ) : ℕ :=
  sink.countP fun m => m.line.origin = origin

/-- No line is stored twice in a sink and no received line is written to the stream. -/
structure State.NoEcho (s : State) : Prop where
  server_once : ∀ origin, occurrences s.serverSink origin ≤ 1
  device_once : ∀ origin, occurrences s.deviceSink origin ≤ 1
  toDevice_own : ∀ msg ∈ s.sentToDevice, msg.formattedLine.hops = 0
  toServer_own : ∀ msg ∈ s.sentToServer, msg.formattedLine.hops = 0

/-- The calls of a sink's lines are distinct and were made already. -/
def Stored (calls : ℕ) (sink : List LogMessage) : Prop :=
  (sink.map fun m => m.line.origin).Nodup ∧ ∀ m ∈ sink, m.line.origin < calls

theorem Stored.mono {calls calls' : ℕ} {sink : List LogMessage} (h : Stored calls sink)
    (hle : calls ≤ calls') : Stored calls' sink :=
  ⟨h.1, fun m hm => Nat.lt_of_lt_of_le (h.2 m hm) hle⟩

/-- The line of a new call is not in the sink yet. -/
theorem Stored.append {calls : ℕ} {sink : List LogMessage} (h : Stored calls sink)
    (level : LogLevel) (text : String) (hops : ℕ) :
    Stored (calls + 1) (sink ++ [⟨level, ⟨text, calls, hops⟩⟩]) := by
  constructor
  · rw [List.map_append, List.map_singleton, List.nodup_append]
    refine ⟨h.1, List.nodup_singleton _, ?_⟩
    intro origin horigin new hnew
    obtain ⟨m, hm, rfl⟩ := List.mem_map.mp horigin
    rw [List.mem_singleton.mp hnew]
    exact Nat.ne_of_lt (h.2 m hm)
  · intro m hm
    rcases List.mem_append.mp hm with hold | hnew
    · exact Nat.lt_succ_of_lt (h.2 m hold)
    · rw [List.mem_singleton.mp hnew]
      exact Nat.lt_succ_self calls

theorem Stored.occurrences_le_one {calls : ℕ} {sink : List LogMessage} (h : Stored calls sink)
    (origin : ℕ) : occurrences sink origin ≤ 1 := by
  have hcount := List.nodup_iff_count_le_one.mp h.1 origin
  rw [List.count, List.countP_map] at hcount
  refine le_of_eq_of_le ?_ hcount
  exact List.countP_congr fun m _ => by simp

/-- Nothing was received yet: only own lines are stored, queued and sent. -/
structure State.Unreceived (s : State) : Prop where
  active : s.activeStream = true
  server : Stored s.calls s.serverSink
  device : Stored s.calls s.deviceSink
  buffer_own : ∀ m ∈ s.buffer.queue, m.line.hops = 0
  toDevice_own : ∀ msg ∈ s.sentToDevice, msg.formattedLine.hops = 0
  toServer_own : ∀ msg ∈ s.sentToServer, msg.formattedLine.hops = 0

theorem State.Unreceived.noEcho {s : State} (h : s.Unreceived) : s.NoEcho :=
  ⟨h.server.occurrences_le_one, h.device.occurrences_le_one, h.toDevice_own, h.toServer_own⟩

theorem unreceived_initial (threshold : LogLevel) : (initial threshold).Unreceived :=
  ⟨rfl, ⟨List.nodup_nil, nofun⟩, ⟨List.nodup_nil, nofun⟩, nofun, nofun, nofun⟩

/-- A line logged by the server is written to the stream and stored. -/
theorem RemoteLogService.logService_eq {s : State} (hs : s.activeStream = true)
    (level : LogLevel) (line : Line) :
    RemoteLogService.logService lib level line s = { s with
      toDevice := s.toDevice ++ [⟨lib.levelToSpdlog level, line⟩]
      sentToDevice := s.sentToDevice ++ [⟨lib.levelToSpdlog level, line⟩]
      serverSink := s.serverSink ++ [⟨level, line⟩] } := by
  unfold logService LogServiceTee.log writeOutbound primaryLog
  rw [if_pos hs]

/-- A line below the device's threshold is only stored. -/
theorem GrpcLogService.logService_of_lt {s : State} {level : LogLevel}
    (hs : lib.value level < lib.value s.threshold) (line : Line) :
    GrpcLogService.logService lib level line s =
      { s with deviceSink := s.deviceSink ++ [⟨level, line⟩] } := by
  unfold logService LogServiceTee.log sendLog primaryLog
  rw [if_pos hs]

/-- Any other line logged by the device is queued for the stream and stored. -/
theorem GrpcLogService.logService_of_not_lt {s : State} {level : LogLevel}
    (hs : ¬ lib.value level < lib.value s.threshold) (line : Line) :
    GrpcLogService.logService lib level line s = { s with
      buffer := s.buffer.push ⟨level, line⟩
      deviceSink := s.deviceSink ++ [⟨level, line⟩] } := by
  unfold logService LogServiceTee.log sendLog primaryLog
  rw [if_neg hs]

theorem unreceived_callStep {s : State} (h : s.Unreceived) (c : Call) :
    (callStep lib s c).Unreceived := by
  cases c with
  | server level text =>
    rw [callStep,
      RemoteLogService.logService_eq lib (s := { s with calls := s.calls + 1 }) h.active]
    refine ⟨h.active, h.server.append _ _ _, h.device.mono (Nat.le_succ _), h.buffer_own, ?_,
      h.toServer_own⟩
    intro msg hmsg
    rcases List.mem_append.mp hmsg with hold | hnew
    · exact h.toDevice_own msg hold
    · rw [List.mem_singleton.mp hnew]
  | device level text =>
    rw [callStep]
    by_cases hlt : lib.value level < lib.value s.threshold
    · rw [GrpcLogService.logService_of_lt lib (s := { s with calls := s.calls + 1 }) hlt]
      exact ⟨h.active, h.server.mono (Nat.le_succ _), h.device.append _ _ _, h.buffer_own,
        h.toDevice_own, h.toServer_own⟩
    · rw [GrpcLogService.logService_of_not_lt lib (s := { s with calls := s.calls + 1 }) hlt]
      refine ⟨h.active, h.server.mono (Nat.le_succ _), h.device.append _ _ _, ?_,
        h.toDevice_own, h.toServer_own⟩
      intro m hm
      rcases AsyncLogBuffer.mem_queue_push hm with hold | rfl
      · exact h.buffer_own m hold
      · rfl

theorem unreceived_streamLogsTurn {s : State} (h : s.Unreceived) :
    (GrpcLogService.streamLogsTurn lib s).Unreceived := by
  unfold GrpcLogService.streamLogsTurn
  split
  · rename_i m buffer hpop
    obtain ⟨hqueue, -⟩ := AsyncLogBuffer.waitPopFor_eq_some hpop
    have hown := h.buffer_own
    rw [hqueue] at hown
    refine ⟨h.active, h.server, h.device, fun x hx => hown x (List.mem_cons_of_mem m hx),
      h.toDevice_own, ?_⟩
    intro msg hmsg
    rcases List.mem_append.mp hmsg with hold | hnew
    · exact h.toServer_own msg hold
    · rw [List.mem_singleton.mp hnew]
      exact hown m List.mem_cons_self
  · rename_i buffer hpop
    have hsame : buffer = s.buffer := by
      unfold AsyncLogBuffer.waitPopFor at hpop
      split at hpop <;> simp_all
    rw [hsame]
    exact ⟨h.active, h.server, h.device, h.buffer_own, h.toDevice_own, h.toServer_own⟩

/-- The label delivers a message. -/
def Label.isDelivery : Label → Bool
  | .deliverToDevice _ | .deliverToServer _ => true
  | _ => false

/-- As long as nothing is delivered, nothing is echoed. -/
theorem unreceived_run {s t : State} {labels : List Label} (hs : s.Unreceived)
    (hlabels : ∀ a ∈ labels, a.isDelivery = false)
    (h : Machine.run (step lib) s labels = some t) : t.Unreceived := by
  induction labels generalizing s with
  | nil => exact Option.some.inj h ▸ hs
  | cons a labels ih =>
    obtain ⟨u, hu, hrest⟩ := Option.bind_eq_some_iff.mp h
    refine ih ?_ (fun b hb => hlabels b (List.mem_cons_of_mem a hb)) hrest
    cases a with
    | call c => exact Option.some.inj hu ▸ unreceived_callStep lib hs c
    | streamLogsTurn => exact Option.some.inj hu ▸ unreceived_streamLogsTurn lib hs
    | deliverToDevice i => cases hlabels _ List.mem_cons_self
    | deliverToServer i => cases hlabels _ List.mem_cons_self

/-- Without a log call the relay does nothing. -/
theorem run_eq_of_no_calls {s t : State} {labels : List Label} (hbuffer : s.buffer.queue = [])
    (hdevice : s.toDevice = []) (hserver : s.toServer = [])
    (hlabels : labels.filterMap Label.call? = [])
    (h : Machine.run (step lib) s labels = some t) : t = s := by
  induction labels with
  | nil => exact (Option.some.inj h).symm
  | cons a labels ih =>
    obtain ⟨u, hu, hrest⟩ := Option.bind_eq_some_iff.mp h
    cases a with
    | call c => cases hlabels
    | streamLogsTurn =>
      have hsame : GrpcLogService.streamLogsTurn lib s = s := by
        unfold GrpcLogService.streamLogsTurn AsyncLogBuffer.waitPopFor
        rw [hbuffer]
      obtain rfl : s = u := hsame.symm.trans (Option.some.inj hu)
      exact ih hlabels hrest
    | deliverToDevice i =>
      simp only [step, hdevice, List.getElem?_nil, Option.map_none, reduceCtorEq] at hu
    | deliverToServer i =>
      simp only [step, hserver, List.getElem?_nil, Option.map_none, reduceCtorEq] at hu

/-- What was written to the stream stays written. -/
def SentKept (s t : State) : Prop :=
  s.sentToDevice <+: t.sentToDevice ∧ s.sentToServer <+: t.sentToServer

theorem SentKept.refl (s : State) : SentKept s s := ⟨List.prefix_refl _, List.prefix_refl _⟩

theorem SentKept.trans {s t u : State} (hst : SentKept s t) (htu : SentKept t u) : SentKept s u :=
  ⟨hst.1.trans htu.1, hst.2.trans htu.2⟩

theorem sentKept_serverLog (level : LogLevel) (line : Line) (s : State) :
    SentKept s (RemoteLogService.logService lib level line s) := by
  unfold RemoteLogService.logService LogServiceTee.log RemoteLogService.primaryLog
    RemoteLogService.writeOutbound
  split
  · exact ⟨List.prefix_append _ _, List.prefix_refl _⟩
  · exact SentKept.refl s

theorem sentKept_deviceLog (level : LogLevel) (line : Line) (s : State) :
    SentKept s (GrpcLogService.logService lib level line s) := by
  by_cases hlt : lib.value level < lib.value s.threshold
  · rw [GrpcLogService.logService_of_lt lib hlt]
    exact SentKept.refl s
  · rw [GrpcLogService.logService_of_not_lt lib hlt]
    exact SentKept.refl s

theorem sentKept_step {s t : State} {a : Label} (h : step lib s a = some t) : SentKept s t := by
  cases a with
  | call c =>
    obtain rfl := Option.some.inj h
    cases c with
    | server level text => exact sentKept_serverLog lib level _ { s with calls := s.calls + 1 }
    | device level text => exact sentKept_deviceLog lib level _ { s with calls := s.calls + 1 }
  | streamLogsTurn =>
    obtain rfl := Option.some.inj h
    unfold GrpcLogService.streamLogsTurn
    split
    · exact ⟨List.prefix_refl _, List.prefix_append _ _⟩
    · exact SentKept.refl s
  | deliverToDevice i =>
    obtain ⟨msg, -, rfl⟩ := Option.map_eq_some_iff.mp h
    unfold GrpcLogService.ingestInbound GrpcLogService.receiveLog
    split
    · exact SentKept.refl s
    · exact sentKept_deviceLog lib _ _ { s with toDevice := s.toDevice.eraseIdx i }
  | deliverToServer i =>
    obtain ⟨msg, -, rfl⟩ := Option.map_eq_some_iff.mp h
    exact sentKept_serverLog lib _ _ { s with toServer := s.toServer.eraseIdx i }

theorem sentKept_run {s t : State} {labels : List Label}
    (h : Machine.run (step lib) s labels = some t) : SentKept s t :=
  Machine.invariant_run (step lib) (fun _ _ _ hu huv => hu.trans (sentKept_step lib huv))
    (SentKept.refl s) h

/-- The relaying of one call until its line is sent back. -/
def echoLabels : Call → List Label
  | .server level text => [.call (.server level text), .deliverToDevice 0, .streamLogsTurn]
  | .device level text => [.call (.device level text), .streamLogsTurn, .deliverToServer 0]

/-- A received line has been written to the stream. -/
def State.Echoed (s : State) : Prop :=
  ∃ msg ∈ s.sentToDevice ++ s.sentToServer, msg.formattedLine.hops ≠ 0

theorem State.Echoed.not_noEcho {s : State} (h : s.Echoed) : ¬ s.NoEcho := by
  intro hnot
  obtain ⟨msg, hmsg, hhops⟩ := h
  rcases List.mem_append.mp hmsg with hdevice | hserver
  · exact hhops (hnot.toDevice_own msg hdevice)
  · exact hhops (hnot.toServer_own msg hserver)

theorem echoed_run {s t : State} {labels : List Label} (hs : s.Echoed)
    (h : Machine.run (step lib) s labels = some t) : t.Echoed := by
  obtain ⟨msg, hmsg, hhops⟩ := hs
  obtain ⟨hdevice, hserver⟩ := sentKept_run lib h
  refine ⟨msg, ?_, hhops⟩
  rcases List.mem_append.mp hmsg with hold | hold
  · exact List.mem_append_left _ (hdevice.subset hold)
  · exact List.mem_append_right _ (hserver.subset hold)

variable {lib}

/-- A delivered line is sent back to the process it came from. -/
theorem echoed_of_call (hcodec : ∀ level, lib.spdlogToLevel (lib.levelToSpdlog level) = level)
    (c : Call) : ∃ t, Machine.run (step lib) (initial c.level) (echoLabels c) = some t ∧
      t.Echoed := by
  cases c with
  | server level text =>
    simp [echoLabels, step, callStep, initial, Call.level, RemoteLogService.logService_eq,
      GrpcLogService.ingestInbound, GrpcLogService.receiveLog, hcodec,
      GrpcLogService.logService_of_not_lt, AsyncLogBuffer.push, AsyncLogBuffer.empty,
      AsyncLogBuffer.dropOldest, GrpcLogService.streamLogsTurn, AsyncLogBuffer.waitPopFor,
      State.Echoed, Line.received]
  | device level text =>
    simp [echoLabels, step, callStep, initial, Call.level, GrpcLogService.logService_of_not_lt,
      AsyncLogBuffer.push, AsyncLogBuffer.empty, AsyncLogBuffer.dropOldest,
      GrpcLogService.streamLogsTurn, AsyncLogBuffer.waitPopFor, RemoteLogService.ingestInbound,
      RemoteLogService.logService_eq, State.Echoed, Line.received]

theorem filterMap_call?_echoLabels (c : Call) :
    (echoLabels c).filterMap Label.call? = [c] := by
  cases c <;> rfl

theorem filterMap_call?_map (calls : List Call) :
    (calls.map Label.call).filterMap Label.call? = calls := by
  rw [List.filterMap_map]
  exact List.filterMap_some

/-- Log calls are never blocked. -/
theorem exists_run_calls (lib : Library) (s : State) (calls : List Call) :
    ∃ t, Machine.run (step lib) s (calls.map Label.call) = some t := by
  induction calls generalizing s with
  | nil => exact ⟨s, rfl⟩
  | cons c calls ih => exact ih (callStep lib s c)

/-- Two processes with one threshold relay without an echo exactly if neither of them ever
logs at that level; the lines of a run are not echoed as long as none is delivered. -/
theorem noEcho_iff_no_calls
    (hcodec : ∀ level, lib.spdlogToLevel (lib.levelToSpdlog level) = level) (level : LogLevel)
    (calls : List Call) (hcalls : ∀ c ∈ calls, c.level = level) :
    ((∀ labels t, labels.filterMap Label.call? = calls →
        Machine.run (step lib) (initial level) labels = some t → t.NoEcho) ↔ calls = []) ∧
      ∀ labels t, labels.filterMap Label.call? = calls → (∀ a ∈ labels, a.isDelivery = false) →
        Machine.run (step lib) (initial level) labels = some t → t.NoEcho := by
  refine ⟨⟨?_, ?_⟩, ?_⟩
  · intro hall
    cases calls with
    | nil => rfl
    | cons c rest =>
      obtain ⟨t, ht, hechoed⟩ := echoed_of_call hcodec c
      obtain ⟨u, hu⟩ := exists_run_calls lib t rest
      have hrun : Machine.run (step lib) (initial level)
          (echoLabels c ++ rest.map Label.call) = some u := by
        rw [Machine.run_append, ← hcalls c List.mem_cons_self, ht]
        exact hu
      have hown : (echoLabels c ++ rest.map Label.call).filterMap Label.call? = c :: rest := by
        rw [List.filterMap_append, filterMap_call?_echoLabels, filterMap_call?_map]
        rfl
      exact absurd (hall _ u hown hrun) (echoed_run lib hechoed hu).not_noEcho
  · rintro rfl labels t hlabels ht
    rw [run_eq_of_no_calls lib rfl rfl rfl hlabels ht]
    exact (unreceived_initial level).noEcho
  · intro labels t _ hlabels ht
    exact (unreceived_run lib (unreceived_initial level) hlabels ht).noEcho

/-- The library with the numbering of spdlog. -/
def spdlogLibrary : Library where
  value
    | .trace => 0
    | .debug => 1
    | .info => 2
    | .warning => 3
    | .error => 4
    | .off => 5
  levelToSpdlog
    | .trace => 0
    | .debug => 1
    | .info => 2
    | .warning => 3
    | .error => 4
    | .off => 6
  spdlogToLevel n :=
    if n = 0 then .trace else if n = 1 then .debug else if n = 2 then .info
    else if n = 3 then .warning else if n = 4 ∨ n = 5 then .error else .off

/-- The line of one call on the server comes back and is stored a second time. -/
theorem call_on_server_echoed : ∃ t,
    Machine.run (step spdlogLibrary) (initial .info) [.call (.server .info "recording"),
      .deliverToDevice 0, .streamLogsTurn, .deliverToServer 0] = some t ∧
      occurrences t.serverSink 0 = 2 ∧ ¬ t.NoEcho := by
  refine ⟨_, rfl, rfl, ?_⟩
  intro hnot
  exact absurd (hnot.server_once 0) (by decide)

theorem noEcho_iff_no_calls_deviceCall :
    (∀ labels t, labels.filterMap Label.call? = [.device .info "ready"] →
        (∀ a ∈ labels, a.isDelivery = false) →
        Machine.run (step spdlogLibrary) (initial .info) labels = some t → t.NoEcho) ∧
      ¬ ∀ labels t, labels.filterMap Label.call? = [.device .info "ready"] →
        Machine.run (step spdlogLibrary) (initial .info) labels = some t → t.NoEcho := by
  have hcodec : ∀ level,
      spdlogLibrary.spdlogToLevel (spdlogLibrary.levelToSpdlog level) = level := by
    intro level
    cases level <;> rfl
  have h := noEcho_iff_no_calls hcodec .info [.device .info "ready"] (by decide)
  refine ⟨h.2, ?_⟩
  intro hall
  exact nomatch h.1.mp hall

/-! ## The level behind the tee -/

/-- A log service of the server: the logger of the process, or the tee that is put over an earlier
service while a device is connected. -/
inductive LogService where
  | logger
  | tee (primary : LogService)
  deriving DecidableEq, Repr

namespace LogService

/-- Set the level of a service while `global` is the log service of the process; the result is the
level of the logger. Behind its own service a tee sets the level of its remote log, whose sender
and whose receiver hand the call to the global service. At most `depth` calls on a tee fit on the
stack, and one more ends the process. -/
def setLevel (global : LogService) : ℕ → LogService → LogLevel → Option LogLevel
  | _, .logger, level => some level
  | 0, .tee _, _ => none
  | depth + 1, .tee primary, level =>
    (setLevel global depth primary level).bind fun _ =>
      (setLevel global depth global level).bind fun _ => setLevel global depth global level

/-- A tee that is the global service itself comes back to itself on every stack. -/
theorem setLevel_tee (primary : LogService) (depth : ℕ) (level : LogLevel) :
    (tee primary).setLevel depth (tee primary) level = none := by
  induction depth with
  | zero => rfl
  | succ depth ih =>
    rw [setLevel, ih]
    cases setLevel (tee primary) depth primary level <;> rfl

end LogService

end LogRelay

end Evrp
