import Vesper.Lib.Machine
import Vesper.Lib.SymbolicTerms
import Vesper.Crypto.Primitives
import Vesper.Crypto.Symbolic
import Vesper.Crypto.DoubleRatchet
import Vesper.Crypto.X3dh
import Vesper.Ratchet.KeySchedule
import Vesper.Ratchet.Session
import Vesper.Ratchet.Epochs
import Vesper.Ratchet.Delivery
import Vesper.Ratchet.KeyRing
import Vesper.Ratchet.Authenticity
import Vesper.Ratchet.Atomicity
import Vesper.Client.Session
import Vesper.Client.Establishment
import Vesper.Client.Convergence
import Vesper.Client.Authentication
import Vesper.Client.Calls
import Vesper.Client.Chains
import Vesper.Lib.SymbolicKnowledge
import Vesper.Lib.OneTimeKeys
import Vesper.Ratchet.SendingKeys
import Vesper.Client.Replay
import Vesper.Group.Receiver
import Vesper.Group.Channel
import Vesper.Group.ForwardSecrecy
import Vesper.Ratchet.BreakIn
import Vesper.Client.Distribution
import Vesper.Client.Incoming
import Vesper.Lib.Programs
import Vesper.Server.Authority
import Vesper.Server.Noninterference
import Vesper.Server.Channels
import Vesper.Server.Deliveries
import Vesper.Server.Clearing
import Vesper.Server.Secrecy
import Vesper.Client.OfflineQueue
import Vesper.Server.SyncIsolation
import Vesper.Server.SyncTargets
import Vesper.Server.SyncIndex
import Vesper.Auth.SingleUse
import Vesper.Auth.Revocation
import Vesper.Auth.TwoFactor
import Vesper.Chat.EchoRuns
import Vesper.Chat.WindowLoads
import Vesper.Chat.CacheRuns
import Vesper.Server.Saving
import Vesper.Server.StoredFiles
import Vesper.Client.FanOut
import Vesper.Server.DirectChats
import Vesper.Server.Friends
import Vesper.Server.CallSignals
import Vesper.Server.Caps
import Vesper.Server.Presence
import Vesper.Client.OfflineSending
import Vesper.Client.WebRtc
import Vesper.Client.DeviceSync
import Vesper.Client.SyncOutcome
import Vesper.Client.Tabs
import Vesper.Lib.ByteReader
import Vesper.Lib.TreeMaps
import Vesper.Lib.Base64
import Vesper.Crypto.ByteForms
import Vesper.Crypto.PinKey
import Vesper.Ratchet.Calls
import Vesper.Ratchet.Caches
import Vesper.Ratchet.StateBytes
import Vesper.Ratchet.Panics
import Vesper.Group.Caches
import Vesper.Group.StateBytes
import Vesper.Group.Holding
import Vesper.Client.Bundles
import Vesper.Client.Encoding
import Vesper.Client.Published
import Vesper.Client.WorkerCalls
import Vesper.Client.StoredSessions
import Vesper.Client.GroupSending
import Vesper.Client.GroupFiles
import Vesper.Group.MessageKeys
import Vesper.Crypto.Manifests
import Vesper.Crypto.SyncSessions
import Vesper.Server.RateLimiter
import Vesper.Lib.JsNumbers
import Vesper.Lib.IpText
import Vesper.Server.SsrfGuard
import Vesper.Server.SafeFetch
import Vesper.Server.BodyCap
import Vesper.Server.MetadataValidator
import Vesper.Chat.ParseMetadata
import Vesper.Server.ContentLength
import Vesper.Client.SyncExport
import Vesper.Lib.Promises
import Vesper.Client.Locks
import Vesper.Client.LockSteps
import Vesper.Client.LockCalls
import Vesper.Client.LockOrder
import Vesper.Lib.Slices
import Vesper.Crypto.ByteParser
import Vesper.Client.Decoders
import Vesper.Client.OutgoingContent
import Vesper.Client.Sealing
import Vesper.Client.Concealment
import Vesper.Lib.Simulations
import Vesper.Client.Texts
import Vesper.Lib.Bookkeeping
import Vesper.Client.TokenRefresh
import Vesper.Client.RefreshTallies
import Vesper.Client.SignedIn
import Vesper.Client.CryptoWorker
import Vesper.Client.Recovery
import Vesper.Client.SyncCopies
import Vesper.Server.Authorship
import Vesper.Chat.Search
