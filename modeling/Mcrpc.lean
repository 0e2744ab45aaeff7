import Mcrpc.Lib.Ascii
import Mcrpc.Lib.Scan
import Mcrpc.Lib.Bounded
import Mcrpc.Lib.Words
import Mcrpc.Lib.Dict
import Mcrpc.Lib.CharClass
import Mcrpc.Lib.Lens
import Mcrpc.Lib.Unwinding
import Mcrpc.Lib.BoundedKeys
import Mcrpc.Lib.CString
import Mcrpc.Lib.Fallback
import Mcrpc.Lib.Hex
import Mcrpc.Lib.Latch
import Mcrpc.Lib.Simulation
import Mcrpc.Types
import Mcrpc.ReplyBuffer
import Mcrpc.Parser
import Mcrpc.Grammar
import Mcrpc.ParserScan
import Mcrpc.ParserComplete
import Mcrpc.ParserSound
import Mcrpc.Registry
import Mcrpc.Dispatcher
import Mcrpc.RequestId
import Mcrpc.Builders
import Mcrpc.Python.Builtins
import Mcrpc.Python.Codec
import Mcrpc.Python.Status
import Mcrpc.Python.Parser
import Mcrpc.StatusLine
import Mcrpc.WholeReading
import Mcrpc.ParserAgreement
import Mcrpc.EventBus
import Mcrpc.FeatureManager
import Mcrpc.UptimeFormat
import Mcrpc.Python.Uptime
import Mcrpc.UptimeReading
import Mcrpc.ReplyJitter
import Mcrpc.CanonicalCsv
import Mcrpc.McRpc
import Mcrpc.SenderPrefix
import Mcrpc.CallResult
import Mcrpc.HostServices
import Mcrpc.Features
import Mcrpc.Lifting
import Mcrpc.Process
import Mcrpc.Isolation
import Mcrpc.Separation
import Mcrpc.Python.Event
import Mcrpc.Python.Response
import Mcrpc.Python.CallResult
import Mcrpc.Python.Discover
import Mcrpc.Python.Fields
import Mcrpc.Python.Builder
import Mcrpc.Python.StatusBuilder
import Mcrpc.Python.Client
import Mcrpc.Correlator
import Mcrpc.ReplyLine
import Mcrpc.BroadcastFanIn
import Mcrpc.Python.RequestScan
import Mcrpc.ResponseRecognition
import Mcrpc.HostileInput
import Mcrpc.EndToEnd
import Mcrpc.OutboundBuilder
import Mcrpc.WireRoundTrip
import Mcrpc.Transport
import Mcrpc.EventWire
import Mcrpc.CanonicalSet
import Mcrpc.DiscoveryLine
import Mcrpc.NodeFields
import Mcrpc.DiscoveryRoundTrip
import Mcrpc.AdvertisedCapabilities
import Mcrpc.IdentityAgreement
import Mcrpc.CallResultGrammar
import Mcrpc.ProcName
import Mcrpc.CallResultSyntax
import Mcrpc.Python.ReplyJitter
import Mcrpc.Stagger
import Mcrpc.FeatureLifecycle
import Mcrpc.Python.Dispatcher
import Mcrpc.AddressedById
import Mcrpc.AnsweredCalls
import Mcrpc.RegistryRuns
import Mcrpc.NameLists
import Mcrpc.BuilderAgreement
import Mcrpc.CompleteLines
import Mcrpc.KnownRequests
import Mcrpc.Delivery
import Mcrpc.UptimeRoom
import Mcrpc.FieldViews
import Mcrpc.Config
import Mcrpc.ConfigRuns
import Mcrpc.ChannelKey
import Mcrpc.BatteryFeature
import Mcrpc.ParsedRequest
import Mcrpc.BufferRuns
import Mcrpc.CsvTermination
import Mcrpc.Lib.CallService
import Mcrpc.EventLines
import Mcrpc.Network
import Mcrpc.RemoteCalls
import Mcrpc.RemoteCallRuns
import Mcrpc.DispatcherAgreement
import Mcrpc.EventReading
import Mcrpc.ButtonFeature
import Mcrpc.Reports
import Mcrpc.FeatureReplies
import Mcrpc.FeatureViews
import Mcrpc.BatteryEvents
import Mcrpc.CallResultBuilders
import Mcrpc.Cli
import Mcrpc.ReplyBuilders
import Mcrpc.Wiring
import Mcrpc.NameReplies
import Mcrpc.HostReplies
import Mcrpc.BatteryView
import Mcrpc.NodeDiscovery
import Mcrpc.NodeStatus
import Mcrpc.RemoteProcedures
