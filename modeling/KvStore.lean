import KvStore.Lib.Runs
import KvStore.Lib.Quorum
import KvStore.Lib.Handoff
import KvStore.Lib.HandoffMoves
import KvStore.Lib.Slots
import KvStore.Lib.Histories
import KvStore.Lib.Linearizability
import KvStore.Lib.Balancing
import KvStore.Lib.FewestMoves
import KvStore.ReplicatedLog.Logs
import KvStore.ReplicatedLog.Core
import KvStore.ReplicatedLog.Elections
import KvStore.ReplicatedLog.Completeness
import KvStore.ReplicatedLog.Commit
import KvStore.ReplicatedLog.Moves
import KvStore.Raft.Types
import KvStore.Raft.Handlers
import KvStore.Raft.Cluster
import KvStore.Raft.Steps
import KvStore.Raft.Slice
import KvStore.Raft.Outcomes
import KvStore.Raft.Adoption
import KvStore.Raft.Refinement
import KvStore.Raft.Simulation
import KvStore.Raft.Safety
import KvStore.Raft.Applying
import KvStore.Raft.Committing
import KvStore.Raft.LedgerSteps
import KvStore.Raft.ApplyOrder
import KvStore.Raft.Placement
import KvStore.Raft.Validity
import KvStore.Raft.Snapshots
import KvStore.Raft.StateMachineSafety
import KvStore.Raft.IndexSafety
import KvStore.Raft.Redelivery
import KvStore.Raft.Compaction
import KvStore.Raft.Backup
import KvStore.Raft.Campaign
import KvStore.Raft.CatchUp
import KvStore.Raft.Draining
import KvStore.Raft.Availability
import KvStore.Raft.Wakeups
import KvStore.Raft.CommitRule
import KvStore.Raft.Provenance
import KvStore.Rsm.Model
import KvStore.Rsm.Steps
import KvStore.Rsm.Identity
import KvStore.Rsm.Deadlock
import KvStore.Rsm.Registration
import KvStore.Rsm.ReplicaState
import KvStore.Rsm.Progress
import KvStore.Rsm.Linearizable
import KvStore.Kv.Versioned
import KvStore.Kv.KvSrv
import KvStore.Kv.Oracle
import KvStore.Kv.ClerkPuts
import KvStore.Kv.KvRaft
import KvStore.Kv.ExactlyOnce
import KvStore.Kv.Replicas
import KvStore.Kv.RaftClerk
import KvStore.Kv.RaftCalls
import KvStore.Kv.RaftReplies
import KvStore.Kv.RaftLinearizable
import KvStore.Shard.Config
import KvStore.Shard.Rebalance
import KvStore.Shard.MinimalMoves
import KvStore.Shard.ConfigCache
import KvStore.Shard.Server
import KvStore.Shard.System
import KvStore.Shard.Outcomes
import KvStore.Shard.Replay
import KvStore.Shard.Snapshots
import KvStore.Shard.Representation
import KvStore.Shard.Agreement
import KvStore.Shard.Steps
import KvStore.Shard.Controllers
import KvStore.Shard.Events
import KvStore.Shard.Refinement
import KvStore.Shard.Simulation
import KvStore.Shard.Execution
import KvStore.Shard.Migration
import KvStore.Shard.ConfigStore
import KvStore.Shard.Legality
import KvStore.Shard.OneConfig
import KvStore.Shard.Recovery
import KvStore.Shard.Clients
import KvStore.Shard.AtMostOnce
import KvStore.Shard.Linearizable
import KvStore.Shard.Around
import KvStore.Shard.Group
import KvStore.Shard.Deployed
import KvStore.Shard.DeployedRefinement
import KvStore.Tester.ServerGrp
import KvStore.Demo.Isolation
import KvStore.Lib.Frames
import KvStore.Tester.Transport
import KvStore.Tester.Demux
import KvStore.Tester.DemuxSafety
import KvStore.Tester.DemuxRelease
import KvStore.Tester.Network
import KvStore.Tester.NetworkProgress
