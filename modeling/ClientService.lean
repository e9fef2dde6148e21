import ClientService.Lib.Outcome
import ClientService.Lib.Framing
import ClientService.Lib.Reader
import ClientService.Lib.Wire
import ClientService.Lib.Fallible
import ClientService.Protobuf.Message
import ClientService.Protobuf.Packet
import ClientService.Protobuf.RoundTrip
import ClientService.Protobuf.Codec
import ClientService.Decoder.Basic
import ClientService.Decoder.Refinement
import ClientService.Decoder.Stream
import ClientService.Decoder.Delivery
import ClientService.Decoder.Receiver
import ClientService.Decoder.Reset
import ClientService.Decoder.Encoding
import ClientService.Lib.Mirror
import ClientService.Lib.Transition
import ClientService.Lib.Objects
import ClientService.Server.Database
import ClientService.Server.Registry
import ClientService.Server.Reconnect
import ClientService.Server.Events
import ClientService.Server.Session
import ClientService.Server.RecordIDs
import ClientService.Upload.Basic
import ClientService.Upload.Resume
import ClientService.Upload.Once
import ClientService.Server.Batch
import ClientService.Server.Severity
import ClientService.Server.Service
import ClientService.Server.Signals
import ClientService.Service.Records
import ClientService.Service.Handler
import ClientService.Service.Wakeup
import ClientService.Server.Acknowledge
import ClientService.Server.Identity
import ClientService.Server.Exclusive
import ClientService.Uv.SendQueue
import ClientService.Uv.Handler
import ClientService.Uv.SessionMap
import ClientService.Uv.Walk
import ClientService.Lib.Bounded
import ClientService.Machine.Smbios
import ClientService.Lib.ConnectionUri
import ClientService.Server.Config
import ClientService.Uv.Lifetime
import ClientService.Lib.Traced
import ClientService.Decoder.Accounting
import ClientService.Lib.Timestamp
import ClientService.Machine.Timestamp
import ClientService.Lib.UuidText
import ClientService.Machine.Uuid
import ClientService.Deployment.Basic
import ClientService.Deployment.Owners
import ClientService.Deployment.Views
import ClientService.Deployment.Server
import ClientService.Deployment.Client
import ClientService.Deployment.Invariant
import ClientService.Deployment.Simulation
import ClientService.Deployment.Resume
import ClientService.Deployment.Once
import ClientService.Service.Report
import ClientService.Server.Connect
import ClientService.Lib.Locks
import ClientService.Uv.Mutexes
import ClientService.Deployment.Refinement
import ClientService.Deployment.Handshake
import ClientService.Deployment.Origin
import ClientService.Lib.Ownership
import ClientService.Uv.Memory
import ClientService.Deployment.Exactly
import ClientService.Service.Journal
import ClientService.Server.History
import ClientService.Deployment.Availability
import ClientService.Deployment.Effort
import ClientService.Decoder.Backlog
