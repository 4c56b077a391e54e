import ClawHarder.Lib.OrderedMap
import ClawHarder.Lib.Run
import ClawHarder.Lib.Json
import ClawHarder.Spec.Manifest
import ClawHarder.Spec.Identity
import ClawHarder.Spec.Indexing
import ClawHarder.Spec.Arbitration
import ClawHarder.Spec.Persistence
import ClawHarder.Spec.Manager
import ClawHarder.Proof.View
import ClawHarder.Proof.Arbitration
import ClawHarder.Proof.Indexing
import ClawHarder.Proof.Coherence
import ClawHarder.Proof.Lossless
import ClawHarder.Proof.Belief
import ClawHarder.Proof.SingleBelief
import ClawHarder.Lib.PyText
import ClawHarder.Lib.PyValue
import ClawHarder.Spec.Ledger
import ClawHarder.Spec.IdeRequest
import ClawHarder.Spec.Comms
import ClawHarder.Proof.Ledger
import ClawHarder.Proof.Site
import ClawHarder.Proof.Lanes
import ClawHarder.Proof.Approval
import ClawHarder.Proof.Execution
import ClawHarder.Proof.DecisionRace
import ClawHarder.Proof.AnyManifest
import ClawHarder.Proof.AppendOnly
import ClawHarder.Proof.Chronicle
import ClawHarder.Proof.Dedup
import ClawHarder.Proof.Freshness
import ClawHarder.Proof.Immutable
import ClawHarder.Proof.Replay
import ClawHarder.Proof.Succession
import ClawHarder.Proof.Support
import ClawHarder.Lib.Replica
import ClawHarder.Proof.Adapters
import ClawHarder.Proof.CommitFlight
import ClawHarder.Proof.CommitRace
import ClawHarder.Lib.FileTree
import ClawHarder.Lib.PyCodec
import ClawHarder.Proof.AllOrNothing
import ClawHarder.Lib.Effectful
import ClawHarder.Proof.BatchUndo
import ClawHarder.Proof.Budget
import ClawHarder.Proof.Killswitch
import ClawHarder.Proof.Parity
import ClawHarder.Proof.StateFile
import ClawHarder.Proof.Rollback
import ClawHarder.Lib.PyBuiltins
import ClawHarder.Proof.Independence
import ClawHarder.Proof.Offload
import ClawHarder.Proof.Redaction
import ClawHarder.Proof.Refinement
import ClawHarder.Proof.StateRoundTrip
import ClawHarder.Proof.Halt
import ClawHarder.Lib.Window
import ClawHarder.Proof.Degraded
import ClawHarder.Proof.Epochs
import ClawHarder.Proof.HitlChain
import ClawHarder.Proof.Intents
import ClawHarder.Proof.ReplayOrder
import ClawHarder.Proof.Simulation
import ClawHarder.Lib.Register
import ClawHarder.Proof.Transactions
import ClawHarder.Proof.Trim
import ClawHarder.Proof.LtmArchive
import ClawHarder.Proof.Trajectory
import ClawHarder.Proof.FollowupQueue
import ClawHarder.Proof.CollectBatches
import ClawHarder.Proof.CommandQueue
import ClawHarder.Proof.OcPath
import ClawHarder.Proof.Retention
import ClawHarder.Proof.Recall
import ClawHarder.Proof.PatchPlan
import ClawHarder.Proof.Conflicts
import ClawHarder.Proof.StateLoad
import ClawHarder.Proof.Query
import ClawHarder.Lib.DirTree
import ClawHarder.Proof.FileStore
import ClawHarder.Proof.IdentityKeys
import ClawHarder.Proof.Sigma
import ClawHarder.Proof.ToolArguments
import ClawHarder.Proof.InlineCalls
import ClawHarder.Proof.Diagnosis
import ClawHarder.Proof.McpSession
import ClawHarder.Proof.Pruning
import ClawHarder.Proof.ReplaceRange
import ClawHarder.Proof.StreamText
import ClawHarder.Proof.Promotion
import ClawHarder.Proof.PublicClaims
import ClawHarder.Proof.TraitMerge
import ClawHarder.Proof.RunDiff
import ClawHarder.Proof.FactStore
import ClawHarder.Proof.CronBackoff
import ClawHarder.Proof.OcEditSentinel
import ClawHarder.Proof.Frontmatter
import ClawHarder.Proof.OcFindExact
import ClawHarder.Proof.NormalForm
import ClawHarder.Proof.EverySchedule
import ClawHarder.Spec.MarkdownChunks
import ClawHarder.Proof.MarkdownFits
import ClawHarder.Proof.MarkdownKeeps
import ClawHarder.Proof.MarkdownRendered
