import PgBatch.Library.Words
import PgBatch.Library.Columnar
import PgBatch.Library.Barrier
import PgBatch.Library.Result
import PgBatch.Library.Grouping
import PgBatch.Library.Bytes
import PgBatch.Library.Chain
import PgBatch.Kernels.Hash
import PgBatch.Kernels.Vector
import PgBatch.Kernels.Selection
import PgBatch.Kernels.SelectionWalk
import PgBatch.Bridge.Publish
import PgBatch.Bridge.Lifecycle
import PgBatch.Bridge.Ownership
import PgBatch.Bridge.RowViews
import PgBatch.Kernels.Int4
import PgBatch.Kernels.Arithmetic
import PgBatch.Expr.Tree
import PgBatch.Expr.Compile
import PgBatch.Expr.Chain
import PgBatch.Expr.Execute
import PgBatch.Expr.Correct
import PgBatch.Expr.Projection
import PgBatch.Expr.ProjectionRun
import PgBatch.Spill.Writer
import PgBatch.Spill.Set
import PgBatch.Spill.Format
import PgBatch.Spill.Tape
import PgBatch.Spill.Calls
import PgBatch.Spill.RoundTrip
import PgBatch.Spill.Shared
import PgBatch.Spill.SharedRead
import PgBatch.Spill.SharedRoundTrip
import PgBatch.Spill.SharedBlocks
import PgBatch.Spill.Bookkeeping
import PgBatch.Nodes.ParallelBuild
import PgBatch.Nodes.ParallelBuildWrites
import PgBatch.Nodes.ParallelBuildProtocol
import PgBatch.Nodes.ParallelBuildLedger
import PgBatch.Nodes.ParallelBuildBudget
import PgBatch.Nodes.SharedChains
import PgBatch.Nodes.SharedChainsRun
import PgBatch.Library.Doubling
import PgBatch.Library.Progress
import PgBatch.Library.Joining
import PgBatch.Nodes.HashJoinBuild
import PgBatch.Nodes.HashJoinResidency
import PgBatch.Nodes.HashJoinBuildRun
import PgBatch.Runtime.Builder
import PgBatch.Runtime.Unary
import PgBatch.Runtime.UnaryRun
import PgBatch.Nodes.Pack
import PgBatch.Nodes.Limit
import PgBatch.Nodes.Aggregate
import PgBatch.Nodes.AggregateTotals
import PgBatch.Nodes.AggregateSpill
import PgBatch.Nodes.AggregateGroups
import PgBatch.Library.Probing
import PgBatch.Library.Sweep
import PgBatch.Library.Bitmap
import PgBatch.Kernels.Reduce
import PgBatch.Kernels.HashVectors
import PgBatch.Nodes.AggregateMerge
import PgBatch.Nodes.AggregateSkew
import PgBatch.Nodes.HashJoinTable
import PgBatch.Nodes.HashJoinKeys
import PgBatch.Nodes.HashJoinMemory
import PgBatch.Nodes.HashJoinProbeBuffer
import PgBatch.Nodes.HashJoinProbeColumns
import PgBatch.Nodes.HashJoinProbeRun
import PgBatch.Nodes.HashJoinOutput
import PgBatch.Nodes.HashJoinOutputRun
import PgBatch.Nodes.HashJoinPartitions
import PgBatch.Nodes.HashJoinFiles
import PgBatch.Nodes.HashJoinShelves
import PgBatch.Nodes.HashJoinMatches
import PgBatch.Nodes.HashJoinChunks
import PgBatch.Nodes.HashJoinDivide
import PgBatch.Nodes.HashJoinPartitionsRun
import PgBatch.Nodes.HashJoinSerial
import PgBatch.Nodes.HashJoinServing
import PgBatch.Nodes.HashJoinRouting
import PgBatch.Nodes.HashJoinRoutingRun
import PgBatch.Nodes.HashJoinFilters
import PgBatch.Nodes.HashJoinEquijoin
import PgBatch.Nodes.HashJoinOutputTurns
import PgBatch.Nodes.ParallelPartitions
import PgBatch.Nodes.ParallelReads
import PgBatch.Nodes.ParallelChunks
import PgBatch.Nodes.ParallelDivide
import PgBatch.Nodes.ParallelPartitionsRun
import PgBatch.Nodes.ParallelServing
import PgBatch.Nodes.ParallelTurns
import PgBatch.Nodes.ParallelBuildFiles
import PgBatch.Nodes.ParallelProbe
import PgBatch.Nodes.ParallelJoin
import PgBatch.Nodes.ParallelJoinFiles
import PgBatch.Nodes.ParallelJoinRun
import PgBatch.Nodes.ParallelJoinShares
import PgBatch.Nodes.ParallelLinking
import PgBatch.Nodes.ParallelTable
import PgBatch.Nodes.ParallelMemory
import PgBatch.Nodes.ParallelMemoryRun
import PgBatch.Nodes.ScanPlan
import PgBatch.Nodes.SourceLayout
import PgBatch.Nodes.HeapSlot
import PgBatch.Nodes.Scan
import PgBatch.Nodes.HeapRequests
import PgBatch.Nodes.ScanRun
import PgBatch.Runtime.UnarySession
import PgBatch.Runtime.PlanData
import PgBatch.Runtime.PlanCodec
import PgBatch.Nodes.Filter
import PgBatch.Nodes.FilterEmits
import PgBatch.Library.Cursor
import PgBatch.Nodes.HeapDeform
import PgBatch.Library.Memory
import PgBatch.Sources.Arrow
import PgBatch.Sources.ArrowScan
import PgBatch.Sources.ArrowScanPaths
import PgBatch.Sources.Compressed
import PgBatch.Sources.CompressedCalls
