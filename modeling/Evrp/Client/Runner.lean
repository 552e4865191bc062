import Evrp.Client.LegacyArgs
import Evrp.Device.DeviceClient
import Evrp.Server.GrpcEvrpService
import Evrp.Server.Playback

/-!
# From the command line to the recorder and back to the exit code

The client turns its flags into settings and asks the server to record or to
replay with them. The settings lose their types on the way, the server guesses
them again, overwrites some entries and looks for the device itself. What the
recorder or the player is made of in the end is compared with the flags
directly, without any settings in between. It is made while the log tee of the
device is installed, and the first thing it does is to set the level of the tee,
which does not end: the server is lost, and the client ends with an error.
-/

namespace Evrp

/-- The value as a `bool`. -/
def AnyValue.bool? {fl : Floating} : AnyValue fl → Option Bool
  | .bool b => some b
  | _ => none

/-- The value as a log level. -/
def AnyValue.logLevel? {fl : Floating} : AnyValue fl → Option LogRelay.LogLevel
  | .logLevel level => some level
  | _ => none

namespace Runner

open DeviceClient Discovery SessionRegistry
open LogRelay (LogLevel LogService)

variable {fl : Floating} {δ : Type*} [DecidableEq δ]

/-! ## The recorder and the player on the server -/

/-- What a recorder takes from its settings. -/
structure RecordOptions where
  logLevel : LogLevel
  kinds : List DeviceKind
  device : String
  outputPath : String
  keyboardCtrlCFilterMode : KeyboardCtrlCFilterMode
  deriving DecidableEq

/-- What a player takes from its settings. -/
structure PlaybackOptions where
  logLevel : LogLevel
  playbackPath : String
  device : String
  deriving DecidableEq

def RecordOptions.ofSetting (setting : Setting (AnyValue fl)) : RecordOptions where
  logLevel := setting.getAs AnyValue.logLevel? "logLevel" .info
  kinds := setting.getAs AnyValue.kinds? "kinds" []
  device := setting.getAs AnyValue.string? "device" ""
  outputPath := setting.getAs AnyValue.string? "outputPath" ""
  keyboardCtrlCFilterMode := keyboardCtrlCFilterModeFromLabel
    (setting.getAs AnyValue.string? "keyboardCtrlCFilter" "ending").toList

def PlaybackOptions.ofSetting (setting : Setting (AnyValue fl)) : PlaybackOptions where
  logLevel := setting.getAs AnyValue.logLevel? "logLevel" .info
  playbackPath := setting.getAs AnyValue.string? "playbackPath" ""
  device := setting.getAs AnyValue.string? "device" ""

/-- What a run meets outside the code: the search for a device, how a recording of some kinds
into a file goes and how a replay of a file goes, each with the connected client. -/
structure World (δ : Type*) where
  interfaces : Option (List Interface)
  started : Option ℤ
  turns : List Turn
  net : Net δ
  /-- How many calls on a tee fit on a stack of the server. -/
  stack : ℕ
  recordEnv : ClientImpl → List DeviceKind → String → RecordEnv
  polls : ClientImpl → List DeviceKind → List (Option (List InputEvent))
  lua : List Char → ℤ × List InputEvent
  replayEnv : ClientImpl → String → Playback.Env
  remote : ClientImpl → Playback.Remote
  /-- Whether the end of a device session reaches the device, and from which peer. -/
  disconnectDelivered : Bool
  disconnectPeer : String
  /-- The queue in front of the server has been shut down. -/
  shutdownDone : Bool

/-- What the server has made for a device: a recorder or a player. It has no outcome if the process
was lost. -/
inductive Action where
  | record (client : ClientImpl) (options : RecordOptions) (final : Option RecordState)
  | replay (client : ClientImpl) (options : PlaybackOptions)
    (calls : Option (List Playback.RemoteCall))

/-- A call on the server. It has no code if the process was lost. -/
structure Served (δ : Type*) where
  code : Option ℤ
  fleet : Fleet δ
  action : Option Action

/-- A device that is connected, and the log service of the process meanwhile. -/
structure ConnectedClient (fl : Floating) where
  deviceClient : ClientImpl
  settings : Setting (AnyValue fl)
  logService : LogService

/-- The session for the log stream. A client that `makeClient` has made is the implementation that
hands it out. -/
def tryExportSessionForLogForwarding (client : ClientImpl) : Option SessionId :=
  some client.sessionId

/-- Find a device, put its address into the settings and a tee over the logger. The level is set
before the tee is installed; calls come one at a time, and each takes its tee off again. -/
def connectDevice (w : World δ) (fleet : Fleet δ) (settings : Setting (AnyValue fl)) :
    Option (Fleet δ × Option (ConnectedClient fl)) :=
  (makeClient w.net settings w.interfaces w.started w.turns fleet
    (settings.getAs AnyValue.string? "device" "").toList).map fun found =>
      (found.1, found.2.map fun client => {
        deviceClient := client
        settings := GrpcEvrpService.connectDevice settings (String.ofList client.serverAddress)
        logService :=
          match tryExportSessionForLogForwarding client with
          | none => .logger
          | some _ => .tee .logger })

/-- Run the recorder with its options; it first sets the level of the log service. -/
def runRecord (w : World δ) (c : ConnectedClient fl) : Option ℤ × Action :=
  let options := RecordOptions.ofSetting c.settings
  match c.logService.setLevel w.stack c.logService options.logLevel with
  | none => (none, .record c.deviceClient options none)
  | some _ =>
    let finished := Record.run options.keyboardCtrlCFilterMode
      (w.recordEnv c.deviceClient options.kinds options.outputPath)
      (w.polls c.deviceClient options.kinds)
    (some finished.1, .record c.deviceClient options (some finished.2))

/-- Run the player with its options and with the parts of the connection. -/
def runPlayback (w : World δ) (c : ConnectedClient fl) : Option ℤ × Action :=
  let options := PlaybackOptions.ofSetting c.settings
  let finished := Playback.run w.lua
    { w.replayEnv c.deviceClient options.playbackPath with
      playbackPath := options.playbackPath
      logLevel := options.logLevel
      hasPlayback := true
      hasFileSystem := true
      logService := c.logService
      stack := w.stack }
    (w.remote c.deviceClient)
  (finished.map Prod.fst, .replay c.deviceClient options (finished.map Prod.snd))

/-- The end of a call with a device: the client of a process that is still there ends its
session. -/
def finish (w : World δ) (fleet : Fleet δ) (client : ClientImpl) (finished : Option ℤ × Action) :
    Served δ where
  code := finished.1
  fleet :=
    match finished.1 with
    | none => fleet
    | some _ => disconnect w.net w.disconnectDelivered w.disconnectPeer fleet client
  action := some finished.2

def localRecord (w : World δ) (fleet : Fleet δ) (settings : Setting (AnyValue fl)) :
    Option (Served δ) :=
  (connectDevice w fleet settings).map fun connected =>
    match connected.2 with
    | none => ⟨some 1, connected.1, none⟩
    | some c => finish w connected.1 c.deviceClient (runRecord w c)

def localReplay (w : World δ) (fleet : Fleet δ) (settings : Setting (AnyValue fl)) :
    Option (Served δ) :=
  if (settings.getAs AnyValue.string? "playbackPath" "").isEmpty then some ⟨some 1, fleet, none⟩
  else
    (connectDevice w fleet settings).map fun connected =>
      match connected.2 with
      | none => ⟨some 1, connected.1, none⟩
      | some c => finish w connected.1 c.deviceClient (runPlayback w c)

/-- A call through the queue; behind its end a call is answered with the value 0. -/
def posted (w : World δ) (fleet : Fleet δ) (call : Option (Served δ)) : Option (Served δ) :=
  if w.shutdownDone then some ⟨some 0, fleet, none⟩ else call

/-! ## The calls of the server -/

/-- The server's own sessions and those of the devices. -/
structure ServerState (δ : Type*) where
  registry : SessionRegistry
  fleet : Fleet δ

/-- How a call goes. -/
inductive Delivery where
  | unreachable
  /-- The call is served, and its reply is lost. -/
  | replyLost
  | answered
  deriving DecidableEq

/-- The way of a request to the server, where its fields may come in another order. -/
structure Channel (fl : Floating) where
  received : ProtoStruct fl → ProtoStruct fl
  received_perm : ∀ request, (received request).fields.Perm request.fields
  delivery : Delivery
  peer : String
  now : ℤ
  context : Option ℕ
  /-- Whether the end of the session reaches the server, and from which peer. -/
  disconnectDelivered : Bool
  disconnectPeer : String

/-- What a handler leaves; without a reply the process was lost. -/
structure Handled (δ : Type*) where
  reply : Option (GrpcStatus × StatusCode)
  registry : SessionRegistry
  fleet : Fleet δ
  action : Option Action

/-- The check in front of a handler. -/
def requireEvrpClientSession (c : Channel fl) (metadata : List (String × String))
    (s : ServerState δ) (handler : ServerState δ → Option (Handled δ)) : Option (Handled δ) :=
  let check := s.registry.requireActiveBusinessCall ((sessionIdFromContext metadata).getD "")
    c.peer c.now
  if check.2.code = .ok then handler { s with registry := check.1 }
  else some ⟨some (check.2, ⟨0, ""⟩), check.1, s.fleet, none⟩

/-- The reply to a call that was made. -/
def respond (failure : String) (registry : SessionRegistry) (served : Served δ) : Handled δ :=
  ⟨served.code.map fun code => (.ok, ⟨code, if code ≠ 0 then failure else ""⟩), registry,
    served.fleet, served.action⟩

/-- The settings of a replay, before the context is added. -/
def replaySettings (request : ProtoStruct fl) : Setting (AnyValue fl) :=
  GrpcEvrpService.mergeIntoMemorySetting (.memory ∅) (fromProto ∅ request)
    |>.insert "program" (.string "evrp-grpc")
    |>.insert "recording" (.bool false)
    |>.insert "playback" (.bool true)

def withContext (context : Option ℕ) (settings : Setting (AnyValue fl)) : Setting (AnyValue fl) :=
  match context with
  | none => settings
  | some context => settings.insert "__evrpUnaryGrpcServerContext" (.other context)

def handleRecord (w : World δ) (c : Channel fl) (metadata : List (String × String))
    (request : ProtoStruct fl) (s : ServerState δ) : Option (Handled δ) :=
  requireEvrpClientSession c metadata s fun s =>
    (posted w s.fleet (localRecord w s.fleet (GrpcEvrpService.record request c.context))).map
      (respond "record failed" s.registry)

def handleReplay (w : World δ) (c : Channel fl) (metadata : List (String × String))
    (request : ProtoStruct fl) (s : ServerState δ) : Option (Handled δ) :=
  requireEvrpClientSession c metadata s fun s =>
    let settings := replaySettings request
    if (settings.getAs AnyValue.string? "playbackPath" "").isEmpty then
      some ⟨some (⟨.invalidArgument, "playbackPath is required"⟩,
        ⟨1, "playbackPath is required"⟩), s.registry, s.fleet, none⟩
    else
      (posted w s.fleet (localReplay w s.fleet (withContext c.context settings))).map
        (respond "replay failed" s.registry)

/-! ## The client -/

/-- The end of the client: its exit code, the sessions of the server if its process is still there,
those of the devices and what was made for one. -/
structure Exit (δ : Type*) where
  code : ℤ
  server : Option SessionRegistry
  fleet : Fleet δ
  action : Option Action

/-- A handler, called with a request. -/
abbrev Handler (fl : Floating) (δ : Type*) :=
  List (String × String) → ProtoStruct fl → ServerState δ → Option (Handled δ)

/-- The code with which a reply ends the call; a call without a reply has failed. -/
def codeOfReply : Option (GrpcStatus × StatusCode) → ℤ
  | none => 1
  | some (status, response) => if status.code = .ok then response.code else 1

/-- A call of the remote client: every failed call is the code 1. -/
def remoteCall (c : Channel fl) (sessionId : SessionId) (handler : Handler fl δ)
    (settings : Setting (AnyValue fl)) (s : ServerState δ) : Option (Exit δ) :=
  match c.delivery with
  | .unreachable => some ⟨1, some s.registry, s.fleet, none⟩
  | .replyLost =>
    (handler [(kSessionMetadataKey, sessionId.text)] (c.received (toProto settings.snapshot))
      s).map fun h => ⟨1, h.reply.map fun _ => h.registry, h.fleet, h.action⟩
  | .answered =>
    (handler [(kSessionMetadataKey, sessionId.text)] (c.received (toProto settings.snapshot))
      s).map fun h =>
        ⟨codeOfReply h.reply, h.reply.map fun _ => h.registry, h.fleet, h.action⟩

/-- The part of the settings that decides what the client does. -/
structure RunnerSetting where
  recording : Bool
  playback : Bool
  playbackPath : String

def RunnerSetting.ofSettings (settings : Setting (AnyValue fl)) : RunnerSetting where
  recording := settings.getAs AnyValue.bool? "recording" false
  playback := settings.getAs AnyValue.bool? "playback" false
  playbackPath := settings.getAs AnyValue.string? "playbackPath" ""

/-- The run of the client with the two calls of its backend. -/
def run (settings : Setting (AnyValue fl)) (record replay : Setting (AnyValue fl) →
    ServerState δ → Option (Exit δ)) (s : ServerState δ) : Option (Exit δ) :=
  let runnerSetting := RunnerSetting.ofSettings settings
  let modeCount := (if runnerSetting.recording then 1 else 0) +
    (if runnerSetting.playback then 1 else 0)
  if 1 < modeCount then some ⟨1, some s.registry, s.fleet, none⟩
  else if modeCount = 0 then some ⟨1, some s.registry, s.fleet, none⟩
  else if runnerSetting.playback then
    if runnerSetting.playbackPath.isEmpty then some ⟨1, some s.registry, s.fleet, none⟩
    else replay settings s
  else record settings s

/-- The end of a session on the server, if the call arrives. -/
def endSession (c : Channel fl) (sessionId : SessionId) (r : SessionRegistry) : SessionRegistry :=
  if c.disconnectDelivered then (r.disconnect sessionId.text c.disconnectPeer).1 else r

/-- The client takes its session back at its end. -/
def Exit.close (c : Channel fl) (sessionId : SessionId) (exit : Exit δ) : Exit δ :=
  { exit with server := exit.server.map (endSession c sessionId) }

/-- The name under which the client was started. -/
def programOfArgv (argv : List (List Char)) : String :=
  if (argv.head?.getD []).isEmpty then "evrp" else String.ofList (argv.head?.getD [])

/-- The client. The flag library leaves the flags or ends the process, and the session with the
server has been opened or not; at its end the client ends the session. -/
def main (parseCommandLineFlags : List (List Char) → Except ℤ ClientFlags)
    (connected : Option SessionId) (w : World δ) (c : Channel fl) (argv : List (List Char))
    (s : ServerState δ) : Option (Exit δ) :=
  match parseCommandLineFlags (LegacyArgs.normalizeLegacyArgs argv) with
  | .error code => some ⟨code, some s.registry, s.fleet, none⟩
  | .ok flags =>
    match connected with
    | none => some ⟨1, some s.registry, s.fleet, none⟩
    | some sessionId =>
      (run (parseArgvInto (.memory ∅) (programOfArgv argv) flags)
        (remoteCall c sessionId (handleRecord w c)) (remoteCall c sessionId (handleReplay w c))
        s).map (Exit.close c sessionId)

/-! ## What the flags ask for -/

inductive Mode where
  | record
  | replay
  deriving DecidableEq

/-- The mode of a command line that asks for exactly one. -/
def modeOfFlags (flags : ClientFlags) : Option Mode :=
  match flags.record, flags.playback.isEmpty with
  | true, true => some .record
  | false, false => some .replay
  | _, _ => none

theorem modeOfFlags_eq_record {flags : ClientFlags} :
    modeOfFlags flags = some .record ↔
      flags.record = true ∧ flags.playback.isEmpty = true := by
  rw [modeOfFlags]
  cases flags.record <;> cases flags.playback.isEmpty <;> simp

theorem modeOfFlags_eq_replay {flags : ClientFlags} :
    modeOfFlags flags = some .replay ↔
      flags.record = false ∧ flags.playback.isEmpty = false := by
  rw [modeOfFlags]
  cases flags.record <;> cases flags.playback.isEmpty <;> simp

theorem modeOfFlags_eq_none {flags : ClientFlags} :
    modeOfFlags flags = none ↔ flags.record = !flags.playback.isEmpty := by
  rw [modeOfFlags]
  cases flags.record <;> cases flags.playback.isEmpty <;> simp

/-- The search for the device of a command line. -/
def deviceOfFlags (w : World δ) (fleet : Fleet δ) (flags : ClientFlags) :
    Option (Fleet δ × Option ClientImpl) :=
  if flags.device = "" then
    match tryParseDiscoveryLinkMode flags.discoveryLinkMode with
    | none => some (fleet, none)
    | some mode =>
      (discoverGrpcTargetsImpl flags.discoveryPort.toInt mode w.interfaces w.started
        w.turns).map (tryTargets w.net fleet)
  else some (create w.net fleet flags.device.toList)

/-- What is made for the device; it comes to no outcome. -/
def actionOfFlags (flags : ClientFlags) (mode : Mode) (client : ClientImpl) : Action :=
  match mode with
  | .record => .record client
      ⟨logLevelFromString flags.logLevel, kindsOfFlags flags, String.ofList client.serverAddress,
        flags.output, keyboardCtrlCFilterModeFromLabel flags.keyboardCtrlCFilter.toList⟩ none
  | .replay => .replay client
      ⟨logLevelFromString flags.logLevel, flags.playback, String.ofList client.serverAddress⟩ none

/-- The call on the server, with the device that was found or without one. -/
def servedOfFlags (flags : ClientFlags) (mode : Mode) (found : Fleet δ × Option ClientImpl) :
    Served δ :=
  match found.2 with
  | none => ⟨some 1, found.1, none⟩
  | some client => ⟨none, found.1, some (actionOfFlags flags mode client)⟩

/-- The end of the client, read off its flags. -/
def exitOfFlags (w : World δ) (c : Channel fl) (sessionId : SessionId) (flags : ClientFlags)
    (s : ServerState δ) : Option (Exit δ) :=
  match modeOfFlags flags with
  | none => some ⟨1, some (endSession c sessionId s.registry), s.fleet, none⟩
  | some mode =>
    if c.delivery = .unreachable then
      some ⟨1, some (endSession c sessionId s.registry), s.fleet, none⟩
    else
      let check := s.registry.requireActiveBusinessCall sessionId.text c.peer c.now
      if check.2.code = .ok then
        if w.shutdownDone then
          some ⟨if c.delivery = .answered then 0 else 1, some (endSession c sessionId check.1),
            s.fleet, none⟩
        else
          (deviceOfFlags w s.fleet flags).map fun found =>
            match found.2 with
            | none => ⟨1, some (endSession c sessionId check.1), found.1, none⟩
            | some client => ⟨1, none, found.1, some (actionOfFlags flags mode client)⟩
      else some ⟨1, some (endSession c sessionId check.1), s.fleet, none⟩

/-! ## The settings carry the flags -/

theorem getAs_of_denote {τ : Type} (cast : AnyValue fl → Option τ)
    {settings : Setting (AnyValue fl)} {key : String} {a : AnyValue fl} {value : τ}
    (h : settings.denote key = some a) (hcast : cast a = some value) (fallback : τ) :
    settings.getAs cast key fallback = value := by
  rw [Setting.getAs, Setting.get_eq, h, Option.getD_some, hcast, Option.getD_some]

/-- The settings lead to the values of the flags. -/
structure Carries (settings : Setting (AnyValue fl)) (flags : ClientFlags) : Prop where
  logLevel : settings.denote "logLevel" = some (.logLevel (logLevelFromString flags.logLevel))
  playbackPath : settings.denote "playbackPath" = some (.string flags.playback)
  outputPath : settings.denote "outputPath" = some (.string flags.output)
  device : settings.denote "device" = some (.string flags.device)
  keyboardCtrlCFilter :
    settings.denote "keyboardCtrlCFilter" = some (.string flags.keyboardCtrlCFilter)
  discoveryPort : settings.denote "discovery_port" = some (.int32 flags.discoveryPort)
  discoveryLinkMode :
    settings.denote "discovery_link_mode" = some (.string flags.discoveryLinkMode)

theorem carries_parseArgvInto (options : Setting (AnyValue fl)) (program : String)
    (flags : ClientFlags) : Carries (parseArgvInto options program flags) flags := by
  constructor
  all_goals simp [parseArgvInto, Setting.denote_insert]

/-- An entry with another key does not change what is carried. -/
theorem Carries.insert {settings : Setting (AnyValue fl)} {flags : ClientFlags}
    (h : Carries settings flags) {key : String} (hkey : key ∉ ["logLevel", "playbackPath",
      "outputPath", "device", "keyboardCtrlCFilter", "discovery_port", "discovery_link_mode"])
    (value : AnyValue fl) : Carries (settings.insert key value) flags := by
  simp only [List.mem_cons, List.not_mem_nil, or_false, not_or] at hkey
  obtain ⟨h1, h2, h3, h4, h5, h6, h7⟩ := hkey
  constructor
  all_goals rw [Setting.denote_insert, Function.update_of_ne (Ne.symm ‹_›)]
  · exact h.logLevel
  · exact h.playbackPath
  · exact h.outputPath
  · exact h.device
  · exact h.keyboardCtrlCFilter
  · exact h.discoveryPort
  · exact h.discoveryLinkMode

/-- The settings as the server decodes them carry what the client's settings carry. -/
theorem Carries.received {settings : Setting (AnyValue fl)} {flags : ClientFlags}
    (h : Carries settings flags) (c : Channel fl) :
    Carries (GrpcEvrpService.mergeIntoMemorySetting (.memory ∅)
      (fromProto ∅ (c.received (toProto settings.snapshot)))) flags := by
  have hentry {key : String} {a : AnyValue fl} (ha : settings.denote key = some a)
      (htransport : Transportable key a) :
      (GrpcEvrpService.mergeIntoMemorySetting (.memory ∅)
        (fromProto ∅ (c.received (toProto settings.snapshot)))).denote key = some a := by
    rw [GrpcEvrpService.denote_mergeIntoMemorySetting]
    rw [← Setting.getElem?_snapshot] at ha
    exact getElem?_fromProto_of_survives ha htransport.survives (c.received_perm _)
  constructor
  · exact hentry h.logLevel rfl
  · exact hentry h.playbackPath (show "playbackPath" ≠ "logLevel" by decide)
  · exact hentry h.outputPath (show "outputPath" ≠ "logLevel" by decide)
  · exact hentry h.device (show "device" ≠ "logLevel" by decide)
  · exact hentry h.keyboardCtrlCFilter (show "keyboardCtrlCFilter" ≠ "logLevel" by decide)
  · exact hentry h.discoveryPort trivial
  · exact hentry h.discoveryLinkMode (show "discovery_link_mode" ≠ "logLevel" by decide)

section Carried

variable {settings : Setting (AnyValue fl)} {flags : ClientFlags}

/-- The server finds the device that the flags lead to. -/
theorem Carries.makeClient_eq (h : Carries settings flags) (w : World δ) (fleet : Fleet δ) :
    makeClient w.net settings w.interfaces w.started w.turns fleet
        (settings.getAs AnyValue.string? "device" "").toList = deviceOfFlags w fleet flags := by
  rw [getAs_of_denote AnyValue.string? h.device rfl, makeClient, deviceOfFlags]
  by_cases hdevice : flags.device = ""
  · rw [hdevice, if_pos (show "".toList = [] from rfl), if_pos rfl, discoverGrpcTargets,
      getAs_of_denote AnyValue.int32? h.discoveryPort rfl,
      getAs_of_denote AnyValue.string? h.discoveryLinkMode rfl]
    cases tryParseDiscoveryLinkMode flags.discoveryLinkMode with
    | none => rfl
    | some mode => rfl
  · rw [if_neg (by simpa using hdevice), if_neg hdevice]

theorem getAs_connectDevice {τ : Type} (cast : AnyValue fl → Option τ) {key : String}
    (hkey : key ≠ "device") {a : AnyValue fl} (ha : settings.denote key = some a) {value : τ}
    (hcast : cast a = some value) (serverAddress : String) (fallback : τ) :
    (GrpcEvrpService.connectDevice settings serverAddress).getAs cast key fallback = value := by
  refine getAs_of_denote cast (Eq.trans ?_ ha) hcast fallback
  rw [GrpcEvrpService.connectDevice, Setting.denote_insert, Function.update_of_ne hkey]

theorem getAs_device_connectDevice (settings : Setting (AnyValue fl)) (serverAddress : String) :
    (GrpcEvrpService.connectDevice settings serverAddress).getAs AnyValue.string? "device" "" =
      serverAddress := by
  refine getAs_of_denote AnyValue.string? (a := .string serverAddress) ?_ rfl ""
  rw [GrpcEvrpService.connectDevice, Setting.denote_insert, Function.update_self]

theorem Carries.playbackOptions (h : Carries settings flags) (serverAddress : String) :
    PlaybackOptions.ofSetting (GrpcEvrpService.connectDevice settings serverAddress) =
      ⟨logLevelFromString flags.logLevel, flags.playback, serverAddress⟩ := by
  rw [PlaybackOptions.ofSetting, getAs_device_connectDevice,
    getAs_connectDevice AnyValue.logLevel? (by decide) h.logLevel rfl,
    getAs_connectDevice AnyValue.string? (by decide) h.playbackPath rfl]

theorem Carries.recordOptions (h : Carries settings flags) {kinds : List DeviceKind}
    {serverAddress : String} (hkinds : GrpcEvrpService.recorderKinds
      (GrpcEvrpService.connectDevice settings serverAddress) = kinds) :
    RecordOptions.ofSetting (GrpcEvrpService.connectDevice settings serverAddress) =
      ⟨logLevelFromString flags.logLevel, kinds, serverAddress, flags.output,
        keyboardCtrlCFilterModeFromLabel flags.keyboardCtrlCFilter.toList⟩ := by
  have hlisted : (GrpcEvrpService.connectDevice settings serverAddress).getAs AnyValue.kinds?
      "kinds" [] = kinds := hkinds
  rw [RecordOptions.ofSetting, getAs_device_connectDevice, hlisted,
    getAs_connectDevice AnyValue.logLevel? (by decide) h.logLevel rfl,
    getAs_connectDevice AnyValue.string? (by decide) h.outputPath rfl,
    getAs_connectDevice AnyValue.string? (by decide) h.keyboardCtrlCFilter rfl]

/-- The server's recorder is the one the flags ask for; it does not come behind the level. -/
theorem Carries.localRecord_eq (h : Carries settings flags)
    (hkinds : ∀ serverAddress, GrpcEvrpService.recorderKinds
      (GrpcEvrpService.connectDevice settings serverAddress) = kindsOfFlags flags) (w : World δ)
    (fleet : Fleet δ) : localRecord w fleet settings =
      (deviceOfFlags w fleet flags).map (servedOfFlags flags .record) := by
  rw [localRecord, connectDevice, h.makeClient_eq, Option.map_map]
  congr 1
  funext found
  obtain ⟨found, client⟩ := found
  cases client with
  | none => rfl
  | some client =>
    simp only [Function.comp_apply, Option.map_some, tryExportSessionForLogForwarding, runRecord,
      LogService.setLevel_tee, h.recordOptions (hkinds _)]
    rfl

/-- The server's player is the one the flags ask for; it does not come behind the level. -/
theorem Carries.localReplay_eq (h : Carries settings flags) (hpath : flags.playback ≠ "")
    (w : World δ) (fleet : Fleet δ) : localReplay w fleet settings =
      (deviceOfFlags w fleet flags).map (servedOfFlags flags .replay) := by
  have hgiven : ¬ (settings.getAs AnyValue.string? "playbackPath" "").isEmpty = true := by
    rw [getAs_of_denote AnyValue.string? h.playbackPath rfl, String.isEmpty_iff]
    exact hpath
  rw [localReplay, if_neg hgiven, connectDevice, h.makeClient_eq, Option.map_map]
  congr 1
  funext found
  obtain ⟨found, client⟩ := found
  cases client with
  | none => rfl
  | some client =>
    simp only [Function.comp_apply, Option.map_some, tryExportSessionForLogForwarding, runPlayback,
      h.playbackOptions]
    rw [Playback.run_of_tee w.lua hpath ⟨rfl, rfl⟩ rfl]
    rfl

end Carried

theorem Carries.withContext {settings : Setting (AnyValue fl)} {flags : ClientFlags}
    (h : Carries settings flags) (context : Option ℕ) :
    Carries (Runner.withContext context settings) flags := by
  cases context with
  | none => exact h
  | some context => exact h.insert (by decide) _

theorem carries_record (c : Channel fl) (program : String) (flags : ClientFlags) :
    Carries (GrpcEvrpService.record (c.received
      (toProto (parseArgvInto (.memory ∅) program flags).snapshot)) c.context) flags := by
  have hreceived := (carries_parseArgvInto (.memory ∅) program flags).received c
  have hoverwritten := ((hreceived.insert (show "program" ∉ _ by decide)
    (.string "evrp-grpc")).insert (show "recording" ∉ _ by decide) (.bool true)).insert
      (show "playback" ∉ _ by decide) (.bool false)
  exact (hoverwritten.insert (by decide) _).withContext c.context

theorem carries_replaySettings (c : Channel fl) (program : String) (flags : ClientFlags) :
    Carries (replaySettings (c.received
      (toProto (parseArgvInto (.memory ∅) program flags).snapshot))) flags := by
  have hreceived := (carries_parseArgvInto (.memory ∅) program flags).received c
  exact ((hreceived.insert (by decide) _).insert (by decide) _).insert (by decide) _

/-! ## The calls do what the flags say -/

theorem sessionIdFromContext_own (sessionId : SessionId) :
    sessionIdFromContext [(kSessionMetadataKey, sessionId.text)] = some sessionId.text := by
  simp [sessionIdFromContext]

omit [DecidableEq δ] in
/-- A call whose handler checks the session and then serves the request. -/
theorem remoteCall_eq {w : World δ} {c : Channel fl} {sessionId : SessionId}
    {handler : Handler fl δ} {settings : Setting (AnyValue fl)} {s : ServerState δ}
    (failure : String) (served : Fleet δ → Option (Served δ))
    (h : handler [(kSessionMetadataKey, sessionId.text)] (c.received (toProto settings.snapshot))
        s = requireEvrpClientSession c [(kSessionMetadataKey, sessionId.text)] s fun s =>
          (posted w s.fleet (served s.fleet)).map (respond failure s.registry)) :
    remoteCall c sessionId handler settings s =
      if c.delivery = .unreachable then some ⟨1, some s.registry, s.fleet, none⟩
      else
        let check := s.registry.requireActiveBusinessCall sessionId.text c.peer c.now
        if check.2.code = .ok then
          (posted w s.fleet (served s.fleet)).map fun served =>
            ⟨if c.delivery = .answered then served.code.getD 1 else 1,
              served.code.map fun _ => check.1, served.fleet, served.action⟩
        else some ⟨1, some check.1, s.fleet, none⟩ := by
  rw [remoteCall, h, requireEvrpClientSession, sessionIdFromContext_own, Option.getD_some]
  cases hdelivery : c.delivery with
  | unreachable => rfl
  | replyLost =>
    rw [if_neg (show Delivery.replyLost ≠ .unreachable by decide)]
    by_cases hok : (s.registry.requireActiveBusinessCall sessionId.text c.peer c.now).2.code = .ok
    · simp only [hok, if_true, Option.map_map]
      congr 1
      funext served
      cases hcode : served.code with
      | none => simp [respond, hcode]
      | some code => simp [respond, hcode]
    · simp only [hok, if_false, Option.map_some]
  | answered =>
    rw [if_neg (show Delivery.answered ≠ .unreachable by decide)]
    by_cases hok : (s.registry.requireActiveBusinessCall sessionId.text c.peer c.now).2.code = .ok
    · simp only [hok, if_true, Option.map_map]
      congr 1
      funext served
      cases hcode : served.code with
      | none => simp [respond, hcode, codeOfReply]
      | some code => simp [respond, hcode, codeOfReply, show GrpcStatus.ok.code = .ok from rfl]
    · simp only [hok, if_false, Option.map_some, codeOfReply]

/-- The settings of the client name the mode of its flags. -/
theorem runnerSetting_parseArgvInto (program : String) (flags : ClientFlags) :
    RunnerSetting.ofSettings (parseArgvInto (.memory ∅ : Setting (AnyValue fl)) program flags) =
      ⟨flags.record, !flags.playback.isEmpty, flags.playback⟩ := by
  have hrecording : (parseArgvInto (.memory ∅ : Setting (AnyValue fl)) program flags).denote
      "recording" = some (.bool flags.record) := by
    simp [parseArgvInto, Setting.denote_insert]
  have hplayback : (parseArgvInto (.memory ∅ : Setting (AnyValue fl)) program flags).denote
      "playback" = some (.bool !flags.playback.isEmpty) := by
    simp [parseArgvInto, Setting.denote_insert]
  rw [RunnerSetting.ofSettings, getAs_of_denote AnyValue.bool? hrecording rfl,
    getAs_of_denote AnyValue.bool? hplayback rfl,
    getAs_of_denote AnyValue.string? (carries_parseArgvInto _ _ _).playbackPath rfl]

/-- The call on the server and then the end of the session, as the flags describe them. -/
theorem map_remoteCall_eq {w : World δ} {c : Channel fl} {sessionId : SessionId}
    {flags : ClientFlags} {mode : Mode} (hmode : modeOfFlags flags = some mode)
    {handler : Handler fl δ} {settings : Setting (AnyValue fl)} {s : ServerState δ}
    (failure : String)
    (h : handler [(kSessionMetadataKey, sessionId.text)] (c.received (toProto settings.snapshot))
        s = requireEvrpClientSession c [(kSessionMetadataKey, sessionId.text)] s fun s =>
          (posted w s.fleet ((deviceOfFlags w s.fleet flags).map
            (servedOfFlags flags mode))).map (respond failure s.registry)) :
    (remoteCall c sessionId handler settings s).map (Exit.close c sessionId) =
      exitOfFlags w c sessionId flags s := by
  rw [remoteCall_eq failure
    (fun fleet => (deviceOfFlags w fleet flags).map (servedOfFlags flags mode)) h, exitOfFlags,
    hmode]
  by_cases hdelivered : c.delivery = .unreachable
  · simp only [hdelivered, if_true]
    rfl
  · simp only [hdelivered, if_false]
    by_cases hok : (s.registry.requireActiveBusinessCall sessionId.text c.peer c.now).2.code = .ok
    · simp only [hok, if_true, posted]
      cases w.shutdownDone with
      | true => rfl
      | false =>
        simp only [Bool.false_eq_true, if_false, Option.map_map]
        congr 1
        funext found
        obtain ⟨found, client⟩ := found
        cases client with
        | none => simp [servedOfFlags, Exit.close]
        | some client => simp [servedOfFlags, Exit.close]
    · simp only [hok, if_false]
      rfl

/-- The record call of the client. -/
theorem remoteCall_record (w : World δ) (c : Channel fl) (sessionId : SessionId) (program : String)
    {flags : ClientFlags} (hmode : modeOfFlags flags = some .record) (s : ServerState δ) :
    (remoteCall c sessionId (handleRecord w c) (parseArgvInto (.memory ∅) program flags) s).map
      (Exit.close c sessionId) = exitOfFlags w c sessionId flags s := by
  obtain ⟨hrecord, -⟩ := modeOfFlags_eq_record.mp hmode
  have hserved (fleet : Fleet δ) := (carries_record c program flags).localRecord_eq
    (GrpcEvrpService.recorderKinds_record hrecord (c.received_perm _) c.context) w fleet
  apply map_remoteCall_eq hmode "record failed"
  simp only [handleRecord, hserved]

/-- The replay call of the client. -/
theorem remoteCall_replay (w : World δ) (c : Channel fl) (sessionId : SessionId) (program : String)
    {flags : ClientFlags} (hmode : modeOfFlags flags = some .replay) (s : ServerState δ) :
    (remoteCall c sessionId (handleReplay w c) (parseArgvInto (.memory ∅) program flags) s).map
      (Exit.close c sessionId) = exitOfFlags w c sessionId flags s := by
  obtain ⟨-, hempty⟩ := modeOfFlags_eq_replay.mp hmode
  have hpath : flags.playback ≠ "" := by
    rw [Ne, ← String.isEmpty_iff, hempty]
    decide
  have hcarries := carries_replaySettings c program flags
  have hserved (fleet : Fleet δ) := (hcarries.withContext c.context).localReplay_eq hpath w fleet
  apply map_remoteCall_eq hmode "replay failed"
  simp only [handleReplay, getAs_of_denote AnyValue.string? hcarries.playbackPath rfl, hempty,
    hserved, Bool.false_eq_true, if_false]

/-- The run of the client is the one its flags describe. -/
theorem run_eq_exitOfFlags (w : World δ) (c : Channel fl) (sessionId : SessionId)
    (program : String) (flags : ClientFlags) (s : ServerState δ) :
    (run (parseArgvInto (.memory ∅) program flags) (remoteCall c sessionId (handleRecord w c))
        (remoteCall c sessionId (handleReplay w c)) s).map (Exit.close c sessionId) =
      exitOfFlags w c sessionId flags s := by
  rw [run, runnerSetting_parseArgvInto]
  cases hmode : modeOfFlags flags with
  | none =>
    rw [exitOfFlags, hmode]
    simp only [modeOfFlags_eq_none.mp hmode]
    cases flags.playback.isEmpty <;> rfl
  | some mode =>
    cases mode with
    | record =>
      obtain ⟨hrecord, hempty⟩ := modeOfFlags_eq_record.mp hmode
      rw [← remoteCall_record w c sessionId program hmode]
      simp only [hrecord, hempty]
      rfl
    | replay =>
      obtain ⟨hrecord, hempty⟩ := modeOfFlags_eq_replay.mp hmode
      rw [← remoteCall_replay w c sessionId program hmode]
      simp only [hrecord, hempty]
      rfl

/-- The flags ask for one mode, the call is delivered and accepted before the queue is shut down,
and the search ends with a device. -/
structure Reaches (w : World δ) (c : Channel fl) (sessionId : SessionId) (flags : ClientFlags)
    (s : ServerState δ) (mode : Mode) (fleet : Fleet δ) (client : ClientImpl) : Prop where
  mode_eq : modeOfFlags flags = some mode
  delivered : c.delivery ≠ .unreachable
  accepted : (s.registry.requireActiveBusinessCall sessionId.text c.peer c.now).2.code = .ok
  queued : w.shutdownDone = false
  found : deviceOfFlags w s.fleet flags = some (fleet, some client)

/-- The end of a client that has reached a device. -/
theorem Reaches.exitOfFlags_eq {w : World δ} {c : Channel fl} {sessionId : SessionId}
    {flags : ClientFlags} {s : ServerState δ} {mode : Mode} {fleet : Fleet δ}
    {client : ClientImpl} (h : Reaches w c sessionId flags s mode fleet client) :
    exitOfFlags w c sessionId flags s =
      some ⟨1, none, fleet, some (actionOfFlags flags mode client)⟩ := by
  simp only [exitOfFlags, h.mode_eq, if_neg h.delivered, h.accepted, h.queued, h.found, if_true,
    Bool.false_eq_true, if_false, Option.map_some]

/-- How a client ends: without a device, where the server is still there and the code is 0 only
behind the end of its queue, or with one. -/
theorem exitOfFlags_cases {w : World δ} {c : Channel fl} {sessionId : SessionId}
    {flags : ClientFlags} {s : ServerState δ} {exit : Exit δ}
    (h : exitOfFlags w c sessionId flags s = some exit) :
    (exit.action = none ∧ exit.server.isSome = true ∧ (exit.code = 0 ↔
      c.delivery = .answered ∧ (modeOfFlags flags).isSome = true ∧
        (s.registry.requireActiveBusinessCall sessionId.text c.peer c.now).2.code = .ok ∧
        w.shutdownDone = true)) ∨
      ∃ mode fleet client, Reaches w c sessionId flags s mode fleet client := by
  rw [exitOfFlags] at h
  cases hmode : modeOfFlags flags with
  | none =>
    rw [hmode] at h
    obtain rfl := Option.some.inj h
    exact Or.inl ⟨rfl, rfl, by simp⟩
  | some mode =>
    simp only [hmode] at h
    split at h
    · rename_i hunreachable
      obtain rfl := Option.some.inj h
      exact Or.inl ⟨rfl, rfl, by simp [hunreachable]⟩
    · rename_i hdelivered
      split at h
      · rename_i haccepted
        split at h
        · rename_i hshut
          obtain rfl := Option.some.inj h
          exact Or.inl ⟨rfl, rfl, by simp [haccepted, hshut]⟩
        · rename_i hqueued
          obtain ⟨⟨fleet, client⟩, hfound, rfl⟩ := Option.map_eq_some_iff.mp h
          cases client with
          | none => exact Or.inl ⟨rfl, rfl, by simp [hqueued]⟩
          | some client =>
            exact Or.inr ⟨mode, fleet, client, hmode, hdelivered, haccepted,
              Bool.eq_false_of_not_eq_true hqueued, hfound⟩
      · rename_i hrefused
        obtain rfl := Option.some.inj h
        exact Or.inl ⟨rfl, rfl, by simp [hrefused]⟩

/-- For every command line, order of the fields on the wire, session, course of the search and
size of the server's stack, the client ends as its flags read directly: the settings carry each
flag to the recorder or the player and to the search for the device. Just where one mode is asked
for, the call is accepted and a device is found, a recorder or a player is made, with the values
of the flags; there the server is lost, the client ends with the code 1, and its session on the
device stays. So the code is 0 only if the server had shut its queue down and did nothing. -/
theorem client_follows_flags (parseCommandLineFlags : List (List Char) → Except ℤ ClientFlags)
    (sessionId : SessionId) (w : World δ) (c : Channel fl) (argv : List (List Char))
    (s : ServerState δ) {flags : ClientFlags}
    (hflags : parseCommandLineFlags (argv.take 1 ++ LegacyArgs.modernize argv.tail) = .ok flags) :
    main parseCommandLineFlags (some sessionId) w c argv s = exitOfFlags w c sessionId flags s ∧
      (∀ mode fleet client, Reaches w c sessionId flags s mode fleet client →
        main parseCommandLineFlags (some sessionId) w c argv s =
          some ⟨1, none, fleet, some (actionOfFlags flags mode client)⟩) ∧
      ∀ exit, main parseCommandLineFlags (some sessionId) w c argv s = some exit →
        (exit.action.isSome = true ∨ exit.server = none →
          ∃ mode fleet client, Reaches w c sessionId flags s mode fleet client) ∧
        (exit.code = 0 ↔ c.delivery = .answered ∧ (modeOfFlags flags).isSome = true ∧
          (s.registry.requireActiveBusinessCall sessionId.text c.peer c.now).2.code = .ok ∧
          w.shutdownDone = true) := by
  have hmain : main parseCommandLineFlags (some sessionId) w c argv s =
      exitOfFlags w c sessionId flags s := by
    simp only [main, LegacyArgs.normalizeLegacyArgs_eq, hflags]
    exact run_eq_exitOfFlags w c sessionId (programOfArgv argv) flags s
  rw [hmain]
  refine ⟨rfl, fun mode fleet client hreaches => hreaches.exitOfFlags_eq, fun exit hexit => ?_⟩
  rcases exitOfFlags_cases hexit with ⟨hnone, hserver, hcode⟩ | ⟨mode, fleet, client, hreaches⟩
  · refine ⟨fun hmade => ?_, hcode⟩
    rcases hmade with hsome | hlost
    · rw [hnone] at hsome
      cases hsome
    · rw [hlost] at hserver
      cases hserver
  · refine ⟨fun _ => ⟨mode, fleet, client, hreaches⟩, ?_⟩
    obtain rfl := Option.some.inj (hreaches.exitOfFlags_eq.symm.trans hexit)
    simp [hreaches.queued]

/-- The flags of a recording of the mouse into a file, with the device named. -/
def mouseFlags : ClientFlags :=
  ⟨true, "", "out.txt", "mouse", "info", true, true, "10.0.0.5:9999", "ending", 53508, "broadcast"⟩

/-- The flag library on the one command line of the example. -/
def parseMouseFlags (args : List (List Char)) : Except ℤ ClientFlags :=
  if args = ["evrp", "--record", "--output=out.txt", "--kind=mouse",
    "--device=10.0.0.5:9999"].map String.toList then .ok mouseFlags else .error 1

/-- One device that answers, and a recording of which nothing fails. -/
def quietWorld : World Unit where
  interfaces := none
  started := none
  turns := []
  net := loopbackLate
  stack := 1000
  recordEnv _ _ _ := Record.reliableEnv fun _ => ⟨0, 0⟩
  polls _ _ := []
  lua _ := (0, [])
  replayEnv _ path := ⟨path, .info, true, true, .logger, 1000, true, ⟨[], []⟩, false⟩
  remote _ := ⟨fun _ => (true, ⟨0, ""⟩), (true, ⟨0, ""⟩)⟩
  disconnectDelivered := true
  disconnectPeer := "ipv4:10.0.0.7:41000"
  shutdownDone := false

/-- A channel that reverses the fields of a request. -/
def reversingChannel : Channel rationals where
  received request := ⟨request.fields.reverse, by
    rw [List.map_reverse, List.nodup_reverse]
    exact request.nodup⟩
  received_perm request := List.reverse_perm _
  delivery := .answered
  peer := "p"
  now := 5
  context := none
  disconnectDelivered := true
  disconnectPeer := "p"

/-- The server with one session and with a device that has none. -/
def oneSession : ServerState Unit where
  registry := ((SessionRegistry.make 3000 3000).connect "p" [⟨"12", by decide⟩] 0).1
  fleet _ := .make 3000 3000

/-- The command line of the example, in the old spelling. -/
def mouseArgv : List (List Char) :=
  ["evrp", "-r", "out.txt", "--kind=mouse", "--device=10.0.0.5:9999"].map String.toList

/-- The recorder is made, and the server is lost with it; the session on the device stays. -/
theorem client_follows_flags_recordedMouse : ∃ exit client,
    main parseMouseFlags (some ⟨"12", by decide⟩) quietWorld reversingChannel mouseArgv
        oneSession = some exit ∧ exit.code = 1 ∧ exit.server.isNone = true ∧
      exit.action = some (.record client
        ⟨.info, [.mouse], "10.0.0.5:9999", "out.txt", .endingOnly⟩ none) ∧
      ((exit.fleet ()).sessions client.sessionId.text).isSome = true := by
  have hflags : parseMouseFlags (mouseArgv.take 1 ++ LegacyArgs.modernize mouseArgv.tail) =
      .ok mouseFlags := by
    decide
  obtain ⟨-, hreached, -⟩ := client_follows_flags parseMouseFlags ⟨"12", by decide⟩ quietWorld
    reversingChannel mouseArgv oneSession hflags
  exact ⟨_, _, hreached .record _ _ ⟨rfl, by decide, rfl, rfl, rfl⟩, rfl, rfl, rfl, rfl⟩

end Runner

end Evrp
