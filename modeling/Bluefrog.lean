import Bluefrog.Config.Comments
import Bluefrog.Config.Fields
import Bluefrog.Config.Lines
import Bluefrog.Config.Parser
import Bluefrog.Config.Sequence
import Bluefrog.Core.Commute
import Bluefrog.Core.ConnId
import Bluefrog.Core.Counters
import Bluefrog.Core.Downloads
import Bluefrog.Core.Locks
import Bluefrog.Core.Presence
import Bluefrog.Core.Reports
import Bluefrog.Core.Selection
import Bluefrog.Core.Store
import Bluefrog.Core.StoreRuns
import Bluefrog.Core.Swarm
import Bluefrog.Core.Sweeps
import Bluefrog.Core.Types
import Bluefrog.Http.Acceptance
import Bluefrog.Http.Canonical
import Bluefrog.Http.Decoding
import Bluefrog.Http.Handler
import Bluefrog.Http.Query
import Bluefrog.L7.BanCooldown
import Bluefrog.L7.Breadth
import Bluefrog.L7.Charges
import Bluefrog.L7.Churn
import Bluefrog.L7.Client
import Bluefrog.L7.Decay
import Bluefrog.L7.Detection
import Bluefrog.L7.Detector
import Bluefrog.L7.Escalation
import Bluefrog.L7.Eviction
import Bluefrog.L7.Isolation
import Bluefrog.L7.Ranks
import Bluefrog.L7.Runs
import Bluefrog.L7.Score
import Bluefrog.L7.Signals
import Bluefrog.L7.SlowClient
import Bluefrog.L7.Spread
import Bluefrog.L7.Worth
import Bluefrog.Lib.AddrParser
import Bluefrog.Lib.Bencode
import Bluefrog.Lib.Bytes
import Bluefrog.Lib.CappedMap
import Bluefrog.Lib.Exposition
import Bluefrog.Lib.HashMap
import Bluefrog.Lib.History
import Bluefrog.Lib.Integers
import Bluefrog.Lib.Interleaving
import Bluefrog.Lib.Intervals
import Bluefrog.Lib.IpAddr
import Bluefrog.Lib.Passes
import Bluefrog.Lib.Reordering
import Bluefrog.Lib.Ring
import Bluefrog.Lib.Sharded
import Bluefrog.Lib.Since
import Bluefrog.Lib.Str
import Bluefrog.Lib.Tasks
import Bluefrog.Lib.Text
import Bluefrog.Lib.Wire
import Bluefrog.Main.Accounting
import Bluefrog.Main.Address
import Bluefrog.Main.Amplification
import Bluefrog.Main.AnnounceAgreement
import Bluefrog.Main.Answers
import Bluefrog.Main.Bans
import Bluefrog.Main.Clients
import Bluefrog.Main.Daemon
import Bluefrog.Main.Discovery
import Bluefrog.Main.Earned
import Bluefrog.Main.EmptySwarm
import Bluefrog.Main.Headcounts
import Bluefrog.Main.Jobs
import Bluefrog.Main.Ledgers
import Bluefrog.Main.Moments
import Bluefrog.Main.Monitoring
import Bluefrog.Main.Ownership
import Bluefrog.Main.Progress
import Bluefrog.Main.Provenance
import Bluefrog.Main.ScrapeAgreement
import Bluefrog.Main.Sequential
import Bluefrog.Main.Steps
import Bluefrog.Main.Worker
import Bluefrog.Metrics.Metrics
import Bluefrog.Metrics.Page
import Bluefrog.Nft.Netlink
import Bluefrog.Nft.Sink
import Bluefrog.Proto.Bencode
import Bluefrog.Proto.Format
import Bluefrog.Proto.ReplyFormat
import Bluefrog.Proto.Trees
import Bluefrog.Proto.Udp
import Bluefrog.Udp.ConnIdGate
import Bluefrog.Udp.Handler
import Bluefrog.Udp.Replies
