import OpenraftSurrealkv.Lib.Effect
import OpenraftSurrealkv.Lib.Postcard
import OpenraftSurrealkv.Lib.Replay
import OpenraftSurrealkv.Types
import OpenraftSurrealkv.World
import OpenraftSurrealkv.State
import OpenraftSurrealkv.Snapshot.Checkpoint
import OpenraftSurrealkv.Snapshot.Builder
import OpenraftSurrealkv.Merge.Cleanup
import OpenraftSurrealkv.Merge.Executor
import OpenraftSurrealkv.Storage
import OpenraftSurrealkv.StorageRaft
import OpenraftSurrealkv.Effects.Log
import OpenraftSurrealkv.Effects.Open
import OpenraftSurrealkv.Properties.AppliedPosition
import OpenraftSurrealkv.Properties.Restart
import OpenraftSurrealkv.App
import OpenraftSurrealkv.Properties.Replicas
import OpenraftSurrealkv.Effects.Build
import OpenraftSurrealkv.Lib.Delimited
import OpenraftSurrealkv.Snapshot.Stored
import OpenraftSurrealkv.Effects.Install
import OpenraftSurrealkv.Properties.Install
import OpenraftSurrealkv.Effects.History
import OpenraftSurrealkv.Properties.Shipping
import OpenraftSurrealkv.Properties.DeltaContent
import OpenraftSurrealkv.Effects.Merge
import OpenraftSurrealkv.Effects.Chain
import OpenraftSurrealkv.Properties.Chain
import OpenraftSurrealkv.Properties.Payload
import OpenraftSurrealkv.Effects.Saving
import OpenraftSurrealkv.Lib.Simulation
import OpenraftSurrealkv.Properties.Metadata
import OpenraftSurrealkv.Properties.Vote
import OpenraftSurrealkv.Properties.LogRefinement
import OpenraftSurrealkv.Effects.Progress
import OpenraftSurrealkv.Properties.MergeTasks
import OpenraftSurrealkv.Properties.MergeAttempts
import OpenraftSurrealkv.Lib.Serial
import OpenraftSurrealkv.Effects.Sharing
import OpenraftSurrealkv.Properties.Serializable
import OpenraftSurrealkv.Lib.Beside
import OpenraftSurrealkv.Properties.OnePoint
import OpenraftSurrealkv.Properties.OldLayout
import OpenraftSurrealkv.Properties.Engines
import OpenraftSurrealkv.Properties.LogRange
import OpenraftSurrealkv.Properties.Rejected
import OpenraftSurrealkv.Properties.AppliedId
import OpenraftSurrealkv.Properties.Retry
import OpenraftSurrealkv.Properties.VoteRecords
import OpenraftSurrealkv.Properties.MergeRetries
import OpenraftSurrealkv.Lib.Oldest
import OpenraftSurrealkv.Effects.Cleanup
import OpenraftSurrealkv.Properties.Retention
import OpenraftSurrealkv.Config
import OpenraftSurrealkv.Properties.Config
import OpenraftSurrealkv.Effects.Checkpoint
import OpenraftSurrealkv.Network
import OpenraftSurrealkv.Properties.CheckpointNames
import OpenraftSurrealkv.Properties.SequenceNumber
import OpenraftSurrealkv.Effects.Errors
import OpenraftSurrealkv.Properties.ErrorCodes
import OpenraftSurrealkv.Properties.Integrity
import OpenraftSurrealkv.Properties.Reclaim
import OpenraftSurrealkv.Properties.CheckpointTerm
import OpenraftSurrealkv.Lib.FileTree
import OpenraftSurrealkv.Merge.BaselineCopy
import OpenraftSurrealkv.Properties.BaselineCopy
import OpenraftSurrealkv.Effects.Replica
import OpenraftSurrealkv.Lib.Rpc
import OpenraftSurrealkv.Network.Rpc
import OpenraftSurrealkv.Properties.Calls
import OpenraftSurrealkv.Properties.Convergence
import OpenraftSurrealkv.Properties.Transfer
import OpenraftSurrealkv.Effects.Durable
import OpenraftSurrealkv.Network.Pool
import OpenraftSurrealkv.Properties.Durable
import OpenraftSurrealkv.Properties.Pool
import OpenraftSurrealkv.Api
import OpenraftSurrealkv.Properties.Service
import OpenraftSurrealkv.Properties.Backlog
