import TappsBrain.Lib.Table
import TappsBrain.Lib.Prog
import TappsBrain.RelationFrame
import TappsBrain.Discipline
import TappsBrain.SaveDiscipline
import TappsBrain.Untouched
import TappsBrain.Liveness
import TappsBrain.Lib.Abort
import TappsBrain.SaveAtomicity
import TappsBrain.PassDiscipline
import TappsBrain.SupersedeAtomicity
import TappsBrain.Graph
import TappsBrain.AsyncGraphStore
import TappsBrain.GraphParity
import TappsBrain.EdgeConfidence
import TappsBrain.EdgeCardinality
import TappsBrain.Idempotency
import TappsBrain.Replay
import TappsBrain.FeedbackOnce
import TappsBrain.OutOfBand
import TappsBrain.Safety
import TappsBrain.Injection
import TappsBrain.Recall
import TappsBrain.RecallSafety
import TappsBrain.Hive
import TappsBrain.Sharing
import TappsBrain.HiveThread
import TappsBrain.HiveReaping
import TappsBrain.Transfer
import TappsBrain.Mirror
import TappsBrain.ImportFidelity
import TappsBrain.MissionState
import TappsBrain.Parked
import TappsBrain.MissionStateKept
import TappsBrain.PointInTime
import TappsBrain.Decay
import TappsBrain.DecayRefresh
import TappsBrain.Lib.Acyclic
import TappsBrain.MergeDiscipline
import TappsBrain.Remember
import TappsBrain.SupersessionChains
import TappsBrain.Merging
import TappsBrain.MergeIsolation
import TappsBrain.Capture
import TappsBrain.CaptureFlush
import TappsBrain.Units
import TappsBrain.Batch
import TappsBrain.BatchRollback
import TappsBrain.SectionAgreement
import TappsBrain.TenancyApply
import TappsBrain.TenancyMoves
import TappsBrain.TenancyKept
import TappsBrain.TenancyPredicted
import TappsBrain.Hydration
import TappsBrain.NoResurrection
import TappsBrain.BatchDiscipline
import TappsBrain.Integrity
import TappsBrain.Lines
import TappsBrain.MarkdownSync
import TappsBrain.MarkdownRoundTrip
import TappsBrain.EdgeLifeCycle
import TappsBrain.EdgeReplacement
import TappsBrain.EntityNames
import TappsBrain.KgCheck
import TappsBrain.EntityResolution
import TappsBrain.ConflictUndo
import TappsBrain.RelationsAside
import TappsBrain.SupersedeRelations
import TappsBrain.Usefulness
import TappsBrain.Lib.Json
import TappsBrain.Lib.PyNumber
import TappsBrain.Interchange
import TappsBrain.InterchangeRoundTrip
import TappsBrain.LlmContainment
import TappsBrain.RecallBudget
import TappsBrain.VersionKeys
import TappsBrain.ProfileInheritance
import TappsBrain.RelayImport
import TappsBrain.Retrieval
import TappsBrain.ConsolidatedKeys
import TappsBrain.History
import TappsBrain.MergeAcceptance
import TappsBrain.MergeRollback
import TappsBrain.SimilarityGroups
import TappsBrain.RankFusion
import TappsBrain.Chunking
import TappsBrain.Lib.Bfs
import TappsBrain.FindRelated
import TappsBrain.RateLimiter
import TappsBrain.Lib.PathSearch
import TappsBrain.ExplainConnection
import TappsBrain.Lib.Query
import TappsBrain.Neighborhood
import TappsBrain.RecordedEdges
import TappsBrain.FloorGrace
import TappsBrain.FactExtraction
import TappsBrain.Evaluation
import TappsBrain.TenancyReadable
import TappsBrain.Documents
import TappsBrain.DocumentPut
import TappsBrain.DocumentSearch
import TappsBrain.DocumentRuns
import TappsBrain.EventItems
import TappsBrain.EventWarnings
import TappsBrain.EventReports
import TappsBrain.Timeline
import TappsBrain.LiveChannels
import TappsBrain.Lib.Ledger
import TappsBrain.StoreCache
import TappsBrain.Migrations
import TappsBrain.Lib.Digits
import TappsBrain.Partitions
import TappsBrain.ClientRetry
import TappsBrain.Lib.TtlCache
import TappsBrain.ProfileResolver
import TappsBrain.ImplicitFeedback
import TappsBrain.Diagnostics
import TappsBrain.Auth
import TappsBrain.HiveNotify
import TappsBrain.HiveAccess
import TappsBrain.Lib.Noninterference
import TappsBrain.TenantPool
