import Evrp.Client.ArgParser
import Evrp.Client.LegacyArgs
import Evrp.Client.Runner
import Evrp.Device.DeviceClient
import Evrp.Device.DeviceDiscovery
import Evrp.Device.DiscoveryResponder
import Evrp.Device.GrpcInputListenService
import Evrp.Device.GrpcPlaybackService
import Evrp.Device.InputDevices
import Evrp.Device.ListenerCapture
import Evrp.Device.ListenerResources
import Evrp.Device.LocalInputListener
import Evrp.Device.LocalPlayback
import Evrp.Device.PlaybackOutput
import Evrp.Device.PlaybackPrefix
import Evrp.Device.PlaybackProgress
import Evrp.Device.PlaybackService
import Evrp.Device.RecordingCapture
import Evrp.Device.RecordingOwnership
import Evrp.Device.RecordingWatchdog
import Evrp.Device.RemoteInputListener
import Evrp.Device.RemotePlayback
import Evrp.Lib.Attempt
import Evrp.Lib.Emission
import Evrp.Lib.Machine
import Evrp.Lib.Numeral
import Evrp.Lib.Positions
import Evrp.Lib.Ranking
import Evrp.Lib.Sequential
import Evrp.Lib.StepSum
import Evrp.Lib.Text
import Evrp.Sdk.AsyncLogBuffer
import Evrp.Sdk.BusinessCalls
import Evrp.Sdk.CollectorTimeline
import Evrp.Sdk.ComposedTimeline
import Evrp.Sdk.CountingSemaphore
import Evrp.Sdk.DispatchLinearization
import Evrp.Sdk.EnhancedFileSystem
import Evrp.Sdk.Event
import Evrp.Sdk.EventCodec
import Evrp.Sdk.EventFormat
import Evrp.Sdk.EventNumerals
import Evrp.Sdk.EventProto
import Evrp.Sdk.InputEventWriter
import Evrp.Sdk.Keyboard
import Evrp.Sdk.KeyboardDeletion
import Evrp.Sdk.KeyboardEnding
import Evrp.Sdk.KeyboardWindow
import Evrp.Sdk.ListenAddress
import Evrp.Sdk.LogFanout
import Evrp.Sdk.LogRelay
import Evrp.Sdk.LuaBindings
import Evrp.Sdk.LuaEventComposer
import Evrp.Sdk.PlaybackEventCollector
import Evrp.Sdk.RawEventWriter
import Evrp.Sdk.SessionIsolation
import Evrp.Sdk.SessionLease
import Evrp.Sdk.SessionRegistry
import Evrp.Sdk.Setting
import Evrp.Sdk.SyncDispatchQueue
import Evrp.Sdk.ToFromProto
import Evrp.Sdk.TouchContacts
import Evrp.Sdk.TouchDevice
import Evrp.Server.GrpcEvrpService
import Evrp.Server.LocalEvrp
import Evrp.Server.LocalReplay
import Evrp.Server.Playback
import Evrp.Server.Record
import Evrp.Server.RecordOrder
import Evrp.Server.RecordReplay
import Evrp.Server.RecordTruncation
import Evrp.Server.RecordedInput
import Evrp.Server.RemoteEvrp
