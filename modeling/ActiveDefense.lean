import ActiveDefense.Lib.Run
import ActiveDefense.Lib.Prefix
import ActiveDefense.Rust.Text
import ActiveDefense.Rust.Net
import ActiveDefense.Nsm.Common
import ActiveDefense.Nsm.Ebpf
import ActiveDefense.Nsm.Persist
import ActiveDefense.Nsm.Xdp
import ActiveDefense.Nsm.Control
import ActiveDefense.Nsm.System
import ActiveDefense.Nsm.Allowlist
import ActiveDefense.Nsm.Expiry
import ActiveDefense.Lib.Publish
import ActiveDefense.Nsm.Writers
import ActiveDefense.Nsm.Sweep
import ActiveDefense.Nsm.Packet
import ActiveDefense.Rust.Utf8
import ActiveDefense.Nsm.ControlSocket
import ActiveDefense.Clam.HexSig
import ActiveDefense.Lib.NearestSearch
import ActiveDefense.Clam.Completeness
import ActiveDefense.Firewall.Config
import ActiveDefense.Firewall.Packet
import ActiveDefense.Firewall.RateLimit
import ActiveDefense.Firewall.Threshold
import ActiveDefense.Lib.Machine
import ActiveDefense.Firewall.Engine
import ActiveDefense.Firewall.LinearScan
import ActiveDefense.Firewall.Conntrack
import ActiveDefense.Firewall.Quarantine
import ActiveDefense.Firewall.Nfqueue
import ActiveDefense.Firewall.FastPath
import ActiveDefense.Firewall.BanHistory
import ActiveDefense.Lib.Slots
import ActiveDefense.Firewall.Workers
import ActiveDefense.Firewall.Capacity
import ActiveDefense.Firewall.OsSync
import ActiveDefense.Firewall.Chan
import ActiveDefense.Firewall.ChanWakeup
import ActiveDefense.Firewall.Ingestion
import ActiveDefense.Lib.Effect
import ActiveDefense.Lib.Crash
import ActiveDefense.Lib.WriteCache
import ActiveDefense.Clam.Archive
import ActiveDefense.Clam.Scanner
import ActiveDefense.Clam.Bomb
import ActiveDefense.Clam.Depth
import ActiveDefense.Clam.SigUpdate
import ActiveDefense.Clam.PeerLimits
import ActiveDefense.Clam.PeerConcurrency
import ActiveDefense.Lib.TokenBucket
import ActiveDefense.Lib.SlidingWindow
import ActiveDefense.Clam.PeerRate
import ActiveDefense.Rust.Fs
import ActiveDefense.Rust.Hex
import ActiveDefense.Rust.Json
import ActiveDefense.Clam.QuarantineFile
import ActiveDefense.Clam.QuarantineCrash
import ActiveDefense.Rust.Tree
import ActiveDefense.Clam.SigFetch
import ActiveDefense.Clam.SigStaging
import ActiveDefense.Rust.Float
import ActiveDefense.Rust.Mpsc
import ActiveDefense.Siem.Correlation
import ActiveDefense.Siem.Window
import ActiveDefense.Siem.Delivery
import ActiveDefense.Siem.Ontology
import ActiveDefense.Siem.Graph
import ActiveDefense.Siem.ReviewQueue
import ActiveDefense.Siem.Trigger
import ActiveDefense.Siem.AuditTrail
import ActiveDefense.Siem.AuditGraph
import ActiveDefense.Siem.QueueLog
import ActiveDefense.Siem.QueueHistory
import ActiveDefense.Siem.IngestAtomicity
import ActiveDefense.Siem.SlaTimeout
import ActiveDefense.Rust.Serde
import ActiveDefense.Siem.Store
import ActiveDefense.Siem.Replay
import ActiveDefense.Siem.SaveLoad
import ActiveDefense.Siem.SaveRace
import ActiveDefense.Siem.Orchestrator
import ActiveDefense.Siem.Response
import ActiveDefense.Siem.ResponseGate
import ActiveDefense.Siem.NetworkEvidence
import ActiveDefense.Siem.HumanReview
import ActiveDefense.Firewall.Load
import ActiveDefense.Bridges.FirewallSync
import ActiveDefense.Bridges.ManagedRule
import ActiveDefense.Bridges.ManagedDrops
import ActiveDefense.Bridges.SyncedConfig
import ActiveDefense.Rust.Toml
import ActiveDefense.Bridges.NsmControl
import ActiveDefense.Bridges.Containment
import ActiveDefense.Clam.ScanCompletes
import ActiveDefense.Clam.HexOverflow
import ActiveDefense.Clam.HexBuilds
import ActiveDefense.Clam.HashDb
import ActiveDefense.Clam.Engine
import ActiveDefense.Clam.HexSoundness
import ActiveDefense.Clam.HashLoad
import ActiveDefense.Clam.HexSplit
import ActiveDefense.Clam.HexRoundTrip
import ActiveDefense.Clam.EntryCount
import ActiveDefense.Clam.LimitReports
import ActiveDefense.Clam.InMemory
import ActiveDefense.Lib.Safe
import ActiveDefense.Rust.Usize
import ActiveDefense.Clam.Pe
import ActiveDefense.Clam.PeSafety
import ActiveDefense.Clam.PeEntryPoint
import ActiveDefense.Siem.SpectralBaseline
import ActiveDefense.Lib.Records
import ActiveDefense.Bridges.AlertTail
import ActiveDefense.Firewall.Evidence
import ActiveDefense.Firewall.LogGate
import ActiveDefense.Firewall.RateEnvelope
import ActiveDefense.Firewall.Teardown
import ActiveDefense.Firewall.Checked
import ActiveDefense.Clam.UnknownPeers
import ActiveDefense.Clam.ScanResponse
import ActiveDefense.Clam.QuarantineStore
import ActiveDefense.Clam.WatchReaction
import ActiveDefense.Clam.QuarantineRestore
import ActiveDefense.Clam.QuarantineRoundTrip
import ActiveDefense.Firewall.Unspecified
import ActiveDefense.Firewall.Directions
import ActiveDefense.Siem.SweepAlerts
import ActiveDefense.Siem.FlowDecisions
import ActiveDefense.Siem.FailSecure
import ActiveDefense.Siem.PrimaryKey
import ActiveDefense.Siem.HostTracking
import ActiveDefense.Siem.BlockExpiry
import ActiveDefense.Nsm.PersistFile
import ActiveDefense.Nsm.BlockTtl
import ActiveDefense.Nsm.BlockRate
import ActiveDefense.Nsm.Counters
import ActiveDefense.Nsm.PortScan
import ActiveDefense.Siem.Collector
import ActiveDefense.Siem.AllowedHosts
import ActiveDefense.Siem.Rules
import ActiveDefense.Siem.RuleAlerts
import ActiveDefense.Siem.SshdLine
import ActiveDefense.Lib.Bfs
import ActiveDefense.Spectral.Graph
import ActiveDefense.Spectral.Distances
import ActiveDefense.Spectral.Connected
import ActiveDefense.Spectral.Laplacian
import ActiveDefense.Spectral.BlastRadius
import ActiveDefense.Spectral.Similarity
import ActiveDefense.Rust.FloatFns
import ActiveDefense.Spectral.Regularizer
import ActiveDefense.Lib.PowerIteration
import ActiveDefense.Spectral.Fiedler
import ActiveDefense.Spectral.Estimate
import ActiveDefense.Spectral.VirtualEdges
import ActiveDefense.Spectral.Observed
import ActiveDefense.Bridges.ConfirmedThreat
import ActiveDefense.Clam.HexAnchor
import ActiveDefense.Lib.OnesComplement
import ActiveDefense.Firewall.RejectReply
import ActiveDefense.Spectral.Gershgorin
import ActiveDefense.Lib.Jacobi
import ActiveDefense.Spectral.JacobiDs
import ActiveDefense.Spectral.PolyFilter
import ActiveDefense.Lib.Orthogonal
import ActiveDefense.Spectral.JacobiConv
import ActiveDefense.Lib.Rotation
import ActiveDefense.Spectral.Embedding
import ActiveDefense.Spectral.Homology
import ActiveDefense.Spectral.Interner
import ActiveDefense.Lib.TumblingWindow
import ActiveDefense.Lib.Entropy
import ActiveDefense.Clam.PeEntropy
import ActiveDefense.Nsm.SynFlood
import ActiveDefense.Nsm.DnsTunnel
import ActiveDefense.Nsm.Flow
import ActiveDefense.Lib.Spread
import ActiveDefense.Nsm.Beacon
import ActiveDefense.Nsm.ScanWindow
import ActiveDefense.Nsm.Engine
import ActiveDefense.Nsm.EventLoop
import ActiveDefense.Siem.AlertStore
import ActiveDefense.Lib.Lists
import ActiveDefense.Rust.Words
import ActiveDefense.Firewall.ControlEndpoint
import ActiveDefense.Lib.Alignment
import ActiveDefense.Spectral.ReportRange
import ActiveDefense.Spectral.EntityDistances
import ActiveDefense.Clam.Daemon
import ActiveDefense.Clam.Command
import ActiveDefense.Spectral.Evaluation
import ActiveDefense.Lib.Debounce
import ActiveDefense.Clam.WatchLoop
import ActiveDefense.Bridges.ClamAvLane
