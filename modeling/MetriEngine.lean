import MetriEngine.Foundation.OrdMap
import MetriEngine.Foundation.Text
import MetriEngine.Foundation.Transition
import MetriEngine.Foundation.Revisions
import MetriEngine.Storage.Value
import MetriEngine.Storage.Partition
import MetriEngine.Storage.IndexInvariant
import MetriEngine.Storage.ObjectStore
import MetriEngine.Storage.Merge
import MetriEngine.Storage.Transact
import MetriEngine.Storage.Operation
import MetriEngine.Storage.Client
import MetriEngine.Storage.Atomicity
import MetriEngine.Storage.Acknowledgement
import MetriEngine.Storage.Query
import MetriEngine.Tx.HotHead
import MetriEngine.Tx.Coordinator
import MetriEngine.Tx.Serializability
import MetriEngine.Cluster.Instances
import MetriEngine.Cluster.Watermark
import MetriEngine.Cluster.UniqueClaims
import MetriEngine.Cluster.SequenceNumbers
import MetriEngine.Cluster.Deletion
import MetriEngine.Storage.QuotaLedger
import MetriEngine.Cluster.Quotas
import MetriEngine.Eav.Encoding
import MetriEngine.Eav.Datom
import MetriEngine.Quota.Counters
import MetriEngine.Quota.Ledger
import MetriEngine.Quota.Account
import MetriEngine.Quota.Service
import MetriEngine.Quota.Books
import MetriEngine.Quota.Settlement
import MetriEngine.Quota.ExactlyOnce
import MetriEngine.Eav.Codice
import MetriEngine.Eav.Reader
import MetriEngine.Eav.ReadCache
import MetriEngine.Eav.ReadYourWrites
import MetriEngine.Eav.Plan
import MetriEngine.Eav.Constraints
import MetriEngine.Eav.Transact
import MetriEngine.Eav.DatomStore
import MetriEngine.Eav.History
import MetriEngine.Eav.TimeTravel
import MetriEngine.Eav.Names
import MetriEngine.Eav.Cells
import MetriEngine.Eav.Effects
import MetriEngine.Eav.Records
import MetriEngine.Router.SagaDiff
import MetriEngine.Eav.Json
import MetriEngine.Aegis.Hydrator
import MetriEngine.Foundation.Tagged
import MetriEngine.Aegis.Filter
import MetriEngine.Aegis.Table
import MetriEngine.Codice.MintedCodes
import MetriEngine.Codice.Payload
import MetriEngine.Router.Bulk
import MetriEngine.Router.BulkAtomicity
import MetriEngine.Router.SagaMerge
import MetriEngine.Eav.ArrayText
import MetriEngine.Eav.UniqueKeys
import MetriEngine.Cedar.Principal
import MetriEngine.Cedar.PrincipalCache
import MetriEngine.Janus.Abac
import MetriEngine.Janus.RowSecurity
import MetriEngine.Cedar.Perimeters
import MetriEngine.Synopsis.Flush
import MetriEngine.Synopsis.Counts
import MetriEngine.Foundation.Reader
import MetriEngine.Storage.Backup
import MetriEngine.Storage.TenantRestore
import MetriEngine.Storage.Marks
import MetriEngine.Storage.RestoreFinal
import MetriEngine.Eda.Durability
import MetriEngine.Eda.Moira
import MetriEngine.Foundation.Positions
import MetriEngine.Search.Text
import MetriEngine.Search.Corpus
import MetriEngine.Storage.Wire
import MetriEngine.Foundation.Checked
import MetriEngine.Storage.Envelope
import MetriEngine.Storage.EnvelopeIntegrity
import MetriEngine.Storage.Decoders
import MetriEngine.Aegis.Formula
import MetriEngine.Aegis.FormulaGrammar
import MetriEngine.Aegis.FormulaMeaning
import MetriEngine.Foundation.Bitmap
import MetriEngine.Foundation.Probing
import MetriEngine.Storage.PaxMvcc
import MetriEngine.Storage.PaxTimeTravel
import MetriEngine.Foundation.Rounding
import MetriEngine.Storage.FinancialLedger
import MetriEngine.Storage.LedgerConservation
import MetriEngine.Eav.AvetRange
import MetriEngine.Eav.AvetText
import MetriEngine.Eav.KeyImage
import MetriEngine.Foundation.Grouping
import MetriEngine.Eav.EntityIds
import MetriEngine.Storage.HotHeadFile
import MetriEngine.Storage.MergeStability
import MetriEngine.Foundation.Allotment
import MetriEngine.Storage.LedgerIssue
import MetriEngine.Foundation.Calendar
import MetriEngine.Temporal.Core
import MetriEngine.Temporal.TimeFrame
import MetriEngine.Temporal.AdjacentWindows
import MetriEngine.Eav.UpdateDelta
import MetriEngine.Eav.CacheTransparency
import MetriEngine.Foundation.LargestRemainder
import MetriEngine.Storage.HamiltonAllocation
import MetriEngine.Foundation.Bisection
import MetriEngine.Foundation.Walks
import MetriEngine.Foundation.RunLength
import MetriEngine.Foundation.Utf8
import MetriEngine.Storage.EntityDirectory
import MetriEngine.Storage.EulerSubtrees
import MetriEngine.Storage.FenwickPrefixSum
import MetriEngine.Storage.FsstSymbolTable
import MetriEngine.Storage.IotCompression
import MetriEngine.Storage.IotTimeseriesWire
import MetriEngine.Storage.LedgerAtomicity
import MetriEngine.Storage.LedgerHistory
import MetriEngine.Storage.PaxRebuild
import MetriEngine.Quota.NaiveDates
import MetriEngine.Aegis.FilterLaws
import MetriEngine.Aegis.RowOrder
import MetriEngine.Aegis.Aggregation
import MetriEngine.Aegis.CursorWalk
import MetriEngine.Aegis.LikeLaw
import MetriEngine.Aegis.Groups
import MetriEngine.Aegis.FormulaSafety
import MetriEngine.Storage.CsrWire
import MetriEngine.Search.RowIdentity
import MetriEngine.Foundation.Ranks
import MetriEngine.Aegis.Percentile
import MetriEngine.Storage.BankersRounding
import MetriEngine.Aegis.OutputKeys
import MetriEngine.Aegis.MetricNames
import MetriEngine.Foundation.Scales
import MetriEngine.Temporal.Truncation
import MetriEngine.Temporal.MonthShifts
import MetriEngine.Temporal.Comparisons
import MetriEngine.Temporal.FrameSafety
import MetriEngine.Foundation.Moments
import MetriEngine.Foundation.Triangles
import MetriEngine.Storage.CrossCovariance
import MetriEngine.Storage.CrossCovarianceWire
import MetriEngine.Synopsis.Observations
import MetriEngine.Synopsis.Mergeable
import MetriEngine.Eav.IndexHistory
import MetriEngine.Eav.AvetQueries
import MetriEngine.Eav.AvetExact
import MetriEngine.Synopsis.RoaringBitmap
import MetriEngine.Search.EditDistance
import MetriEngine.Synopsis.KllSketch
import MetriEngine.Cedar.Hierarchy
import MetriEngine.Search.Clustering
import MetriEngine.Janus.FilterCompiler
import MetriEngine.Eda.OutboxFetch
import MetriEngine.Search.HybridWire
import MetriEngine.Foundation.Summaries
import MetriEngine.Synopsis.Federation
import MetriEngine.Foundation.HashChains
import MetriEngine.Storage.LedgerChain
import MetriEngine.Foundation.Programs
import MetriEngine.Iop.Pipeline
import MetriEngine.Cedar.Sessions
import MetriEngine.Cedar.GroupCycles
