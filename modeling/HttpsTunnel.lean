import HttpsTunnel.Billing
import HttpsTunnel.Buffers
import HttpsTunnel.Decoding
import HttpsTunnel.Dpi.Account
import HttpsTunnel.Dpi.Eviction
import HttpsTunnel.Dpi.Ledger
import HttpsTunnel.Dpi.Manager
import HttpsTunnel.Dpi.Receive
import HttpsTunnel.Dpi.Segments
import HttpsTunnel.Dpi.Station
import HttpsTunnel.Dpi.Threads
import HttpsTunnel.Handshake
import HttpsTunnel.Lib.Alike
import HttpsTunnel.Lib.Buffer
import HttpsTunnel.Lib.CString
import HttpsTunnel.Lib.Chan
import HttpsTunnel.Lib.Decimal
import HttpsTunnel.Lib.Framing
import HttpsTunnel.Lib.Lru
import HttpsTunnel.Lib.Meter
import HttpsTunnel.Lib.Plan
import HttpsTunnel.Lib.Probe
import HttpsTunnel.Lib.Prog
import HttpsTunnel.Lib.Queue
import HttpsTunnel.Lib.Reads
import HttpsTunnel.Lib.Relay
import HttpsTunnel.Lib.Session
import HttpsTunnel.Lib.Trace
import HttpsTunnel.Recorder.Hscan
import HttpsTunnel.Recorder.Isolation
import HttpsTunnel.Recorder.NetRead
import HttpsTunnel.Recorder.Pool
import HttpsTunnel.Recorder.Redis
import HttpsTunnel.Recorder.Report
import HttpsTunnel.Recorder.Token
import HttpsTunnel.Sdk.Accept
import HttpsTunnel.Sdk.Acts
import HttpsTunnel.Sdk.Batch
import HttpsTunnel.Sdk.ClientHello
import HttpsTunnel.Sdk.Cost
import HttpsTunnel.Sdk.Counters
import HttpsTunnel.Sdk.Destination
import HttpsTunnel.Sdk.Download
import HttpsTunnel.Sdk.Env
import HttpsTunnel.Sdk.Events
import HttpsTunnel.Sdk.FirstChunk
import HttpsTunnel.Sdk.Http
import HttpsTunnel.Sdk.Idle
import HttpsTunnel.Sdk.Loop
import HttpsTunnel.Sdk.Nodes
import HttpsTunnel.Sdk.Order
import HttpsTunnel.Sdk.Proxy
import HttpsTunnel.Sdk.Receive
import HttpsTunnel.Sdk.Recycler
import HttpsTunnel.Sdk.Room
import HttpsTunnel.Sdk.Scan
import HttpsTunnel.Sdk.State
import HttpsTunnel.Sdk.Sweep
import HttpsTunnel.Sdk.Table
import HttpsTunnel.Sdk.Tunnel
import HttpsTunnel.Sdk.Upload
import HttpsTunnel.Sdk.Upstream
import HttpsTunnel.Tms.Accounts
import HttpsTunnel.Tms.Auth
import HttpsTunnel.Tms.CutOff
import HttpsTunnel.Tms.Decoding
import HttpsTunnel.Tms.Dns
import HttpsTunnel.Tms.DnsReads
import HttpsTunnel.Tms.DnsWire
import HttpsTunnel.Tms.Download
import HttpsTunnel.Tms.ForwardId
import HttpsTunnel.Tms.Handler
import HttpsTunnel.Tms.Identity
import HttpsTunnel.Tms.Intervals
import HttpsTunnel.Tms.Leftover
import HttpsTunnel.Tms.Links
import HttpsTunnel.Tms.LoginChecks
import HttpsTunnel.Tms.LoginReads
import HttpsTunnel.Tms.MainLoop
import HttpsTunnel.Tms.Net
import HttpsTunnel.Tms.Ownership
import HttpsTunnel.Tms.Passive
import HttpsTunnel.Tms.Quiet
import HttpsTunnel.Tms.Readiness
import HttpsTunnel.Tms.Receive
import HttpsTunnel.Tms.Refine
import HttpsTunnel.Tms.Resolution
import HttpsTunnel.Tms.Reuse
import HttpsTunnel.Tms.Room
import HttpsTunnel.Tms.Run
import HttpsTunnel.Tms.Simulate
import HttpsTunnel.Tms.State
import HttpsTunnel.Tms.Steps
import HttpsTunnel.Tms.Stream
import HttpsTunnel.Tms.Upload
import HttpsTunnel.Tms.Waiters
import HttpsTunnel.Tms.Wake
import HttpsTunnel.Tms.WellFormed
import HttpsTunnel.Wire.Message
