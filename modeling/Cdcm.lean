import Cdcm.Lib.OrderedIndex
import Cdcm.Lib.Pulse
import Cdcm.Lib.MultiIndex
import Cdcm.Lib.Lease
import Cdcm.Lib.Machine
import Cdcm.Lib.Bytes
import Cdcm.Zmq.UuidFrame
import Cdcm.Zmq.Message
import Cdcm.Protocol.Json
import Cdcm.Protocol.MsgTypes
import Cdcm.SessionsCache.Session
import Cdcm.SessionsCache.SharedMem
import Cdcm.SessionsCache.Refinement
import Cdcm.Frontend.WorkerContainer
import Cdcm.Frontend.LocalActions
import Cdcm.Frontend.MessageBroker
import Cdcm.Frontend.BrokerEffects
import Cdcm.Frontend.BrokerRun
import Cdcm.Protocol.JsonText
import Cdcm.Frontend.RequestQueue
import Cdcm.Frontend.WorkConservation
import Cdcm.Frontend.Lifecycle
import Cdcm.Frontend.Assignment
import Cdcm.Frontend.ClientProcess
import Cdcm.Backend.PostponedActions
import Cdcm.Backend.MessageWorker
import Cdcm.Backend.WorkerEffects
import Cdcm.Backend.Accounting
import Cdcm.System.Envelope
import Cdcm.System.Addressing
import Cdcm.SessionsCache.Atomicity
import Cdcm.SessionsCache.Interleaving
import Cdcm.SessionsCache.Lifetime
import Cdcm.Frontend.Maintenance
import Cdcm.SessionsCache.Cleaning
import Cdcm.Backend.SmbAuth
import Cdcm.Frontend.SessionBookkeeping
import Cdcm.Frontend.CrashFreedom
import Cdcm.Lib.Hoare
import Cdcm.Backend.Pe.BoundedReading
import Cdcm.Backend.Pe.ResourceTree
import Cdcm.Backend.Pe.VersionInfo
import Cdcm.Backend.Pe.VersionLayout
import Cdcm.Backend.Pe.VersionWalk
import Cdcm.Backend.Pe.VersionStrings
import Cdcm.Lib.Regex
import Cdcm.Logger.LogEvent
import Cdcm.Protocol.JsonGrammar
import Cdcm.Logger.PasswordPattern
import Cdcm.Logger.SegmentLayout
import Cdcm.Logger.Redaction
import Cdcm.Frontend.WorkerMap
import Cdcm.Frontend.DispatchTargets
import Cdcm.Frontend.PartialOperations
import Cdcm.Frontend.BrokerTimer
import Cdcm.Frontend.FailureDetector
import Cdcm.Frontend.LocalResults
import Cdcm.Backend.Pe.Faithfulness
import Cdcm.Backend.WorkerLiveness
import Cdcm.Backend.Heartbeats
import Cdcm.Backend.Actions
import Cdcm.Backend.Results
import Cdcm.Backend.Responses
import Cdcm.System.Results
import Cdcm.Lib.Components
import Cdcm.Lib.Unicode
import Cdcm.Lib.Flags
import Cdcm.Backend.Registry.HivePath
import Cdcm.Backend.Registry.Normalize
import Cdcm.Backend.Registry.StringDecoding
import Cdcm.Backend.Registry.Client
import Cdcm.Backend.AccessMask
import Cdcm.Backend.RepliesDue
import Cdcm.System.Network
import Cdcm.System.Wires
import Cdcm.System.Underway
import Cdcm.System.Agreement
import Cdcm.Backend.Retries
import Cdcm.Backend.RetryBudget
import Cdcm.Lib.Base64
import Cdcm.Backend.Smb.Encoding
import Cdcm.Backend.Smb.Client
import Cdcm.Backend.Smb.ReadFile
import Cdcm.Backend.FlagsVector
import Cdcm.Logger.MessageBuffer
import Cdcm.Backend.Pe.RvaTranslation
import Cdcm.Zmq.UuidArrays
import Cdcm.Zmq.Trace
import Cdcm.Supervisor.WorkersMonitor
import Cdcm.Lib.Ledger
import Cdcm.Backend.Conservation
import Cdcm.Frontend.Forwarding
import Cdcm.System.Parcels
import Cdcm.System.Delivery
import Cdcm.System.Requests
import Cdcm.System.Punctual
import Cdcm.System.Suspicion
import Cdcm.System.InTime
import Cdcm.Lib.Glob
import Cdcm.Backend.Smb.Wildcards
import Cdcm.Backend.Smb.WildcardPatterns
import Cdcm.Backend.Smb.ListDir
