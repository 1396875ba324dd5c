import WispMQ.Lib.KeyMap
import WispMQ.Lib.Framing
import WispMQ.Lib.Machine
import WispMQ.Lib.Wildcard
import WispMQ.Lib.SortedMap
import WispMQ.Acl
import WispMQ.World
import WispMQ.Sections
import WispMQ.PacketIds
import WispMQ.Effects
import WispMQ.Epochs
import WispMQ.Pushes
import WispMQ.Fence
import WispMQ.Server
import WispMQ.ReceiveMaximum
import WispMQ.Backlog
import WispMQ.Ledger
import WispMQ.Ordering
import WispMQ.Redelivery
import WispMQ.PacketSize
import WispMQ.Records
import WispMQ.Durable
import WispMQ.Restart
import WispMQ.SysTopics
import WispMQ.Untouched
import WispMQ.Authorized
import WispMQ.Routing
import WispMQ.Bridges
import WispMQ.Replies
import WispMQ.ReadLoop
import WispMQ.Views
import WispMQ.InboundQos2
import WispMQ.ExactlyOnce
import WispMQ.Revocation
import WispMQ.Isolation
import WispMQ.Connection
import WispMQ.Aliases
import WispMQ.Expiry
import WispMQ.Wills
import WispMQ.WillDelay
import WispMQ.Capabilities
import WispMQ.Copies
import WispMQ.Forwarding
import WispMQ.ForwardIds
import WispMQ.Federation
import WispMQ.Echo
import WispMQ.Loopback
import WispMQ.Publishing
import WispMQ.ForeignKey
import WispMQ.Reserved
import WispMQ.Counters
import WispMQ.Fanout
import WispMQ.Frame
import WispMQ.AssignedIds
import WispMQ.Admission
import WispMQ.Fairness
import WispMQ.OfflineQueue
import WispMQ.Lifetime
import WispMQ.Subscribing
import WispMQ.Retained
import WispMQ.KeepAlive
import WispMQ.Toml
import WispMQ.ConfigFile
import WispMQ.ConfigSections
import WispMQ.ConfigLayers
import WispMQ.Lib.Layered
import WispMQ.Precedence
import WispMQ.Listeners
import WispMQ.Strictness
import WispMQ.Allocation
import WispMQ.Flushing
import WispMQ.Lib.Windows
import WispMQ.RateLimit
import WispMQ.WebSocket
import WispMQ.CredentialFile
import WispMQ.AdminRequest
import WispMQ.Statistics
import WispMQ.Admin
import WispMQ.Lib.WriteBehind
import WispMQ.Lives
import WispMQ.Holding
import WispMQ.Provenance
import WispMQ.Draining
import WispMQ.Carrying
import WispMQ.Lib.Interleaving
import WispMQ.BridgeTask
import WispMQ.Status
import WispMQ.Lib.Atomic
import WispMQ.Observing
import WispMQ.Export
import WispMQ.Accepting
import WispMQ.Endpoint
import WispMQ.Lib.Exposition
import WispMQ.Scraping
import WispMQ.Unsubscribing
import WispMQ.JsonRpc
import WispMQ.Lib.Headed
import WispMQ.Exchange
