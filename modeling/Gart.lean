import Gart.Lib.ByteMemory
import Gart.Lib.Outcome
import Gart.Lib.MarkerLog
import Gart.Seggraph.Writer
import Gart.Seggraph.Stages
import Gart.Seggraph.EdgeBlock
import Gart.Seggraph.EdgeBlockOps
import Gart.Seggraph.SegmentInv
import Gart.Seggraph.Growth
import Gart.Seggraph.Merge
import Gart.Fragment.EdgeIterator
import Gart.Fragment.ReadSpec
import Gart.Seggraph.EpochTable
import Gart.Seggraph.LabelBlock
import Gart.Seggraph.GraphInv
import Gart.Seggraph.Relocate
import Gart.Seggraph.PutEdge
import Gart.Seggraph.GraphRun
import Gart.Seggraph.Extents
import Gart.Seggraph.Recycling
import Gart.Fragment.Snapshot
import Gart.Lib.Decimal
import Gart.Fragment.IdParser
import Gart.Converter.Parser
import Gart.Converter.Expansion
import Gart.Converter.Stream
import Gart.Converter.Epochs
import Gart.Converter.Resume
import Gart.Converter.Checkpoint
import Gart.Converter.References
import Gart.Converter.BulkLoad
import Gart.Converter.UnifiedLog
import Gart.Store.Record
import Gart.Converter.Restart
import Gart.Lib.RoundRobin
import Gart.Converter.Pipeline
import Gart.Lib.Steps
import Gart.Runner.Barrier
import Gart.Seggraph.BlockHistory
import Gart.Lib.BitArray
import Gart.Lib.GroupLayout
import Gart.Lib.Versions
import Gart.Store.Schema
import Gart.Store.PageLayout
import Gart.Fragment.Layout
import Gart.Store.Buffers
import Gart.Store.PropertyCol
import Gart.Store.RowPages
import Gart.Store.RowBuild
import Gart.Store.PropertyRun
import Gart.Store.VertexTable
import Gart.Store.GraphStore
import Gart.Store.VertexRun
import Gart.Store.StoreSteps
import Gart.Store.GidDensity
import Gart.Store.VertexRows
import Gart.Fragment.VertexProps
import Gart.Lib.Grouping
import Gart.Store.PartitionInv
import Gart.Store.PartitionRun
import Gart.Fragment.IdWords
import Gart.Fragment.EdgeProps
import Gart.Converter.EntryContent
import Gart.Seggraph.SegmentIndex
import Gart.Store.TableLog
import Gart.Store.TypedRows
import Gart.Fragment.TypeCoverage
import Gart.Fragment.EpochReader
import Gart.Seggraph.Futex
import Gart.Seggraph.Locks
import Gart.Fragment.Completeness
import Gart.Lib.CellLog
import Gart.Seggraph.EntrySearch
import Gart.Store.Deletion
import Gart.Fragment.VertexIterator
import Gart.Store.TableSteps
import Gart.Store.TableSnapshot
import Gart.Fragment.TableReader
import Gart.Store.StringRoom
import Gart.Fragment.StringKeys
import Gart.Fragment.AccessPaths
import Gart.Store.ArrayCol
import Gart.Store.ArrayRun
import Gart.Store.PageHeap
import Gart.Store.PageWrites
import Gart.Store.PageGc
import Gart.Store.PageRun
import Gart.Store.PageCache
import Gart.Store.ColumnAccess
import Gart.Lib.PackedLists
import Gart.Fragment.DestLists
import Gart.Fragment.UndirectedLists
import Gart.Seggraph.BlockCounter
import Gart.Seggraph.FailedAlloc
import Gart.Fragment.EpochIterator
import Gart.Fragment.EdgeTypes
import Gart.Pgql.Schema
import Gart.Store.TableWords
import Gart.Fragment.VertexRanges
import Gart.Fragment.InternalIds
import Gart.Lib.Slots
import Gart.Fragment.VertexArray
import Gart.Lib.Supersteps
import Gart.Lib.Threads
import Gart.Lib.Loads
import Gart.Analytics.Fragments
import Gart.Analytics.PageRank
import Gart.Analytics.RankMass
import Gart.Analytics.RankRun
import Gart.Lib.Walks
import Gart.Analytics.Sssp
import Gart.Analytics.SsspRun
import Gart.Lib.Sweeps
import Gart.Analytics.Wcc
import Gart.Analytics.WccRun
import Gart.Store.LabelViews
import Gart.Seggraph.LabelMap
import Gart.Seggraph.SegmentLayout
import Gart.Seggraph.MergeRoom
import Gart.Store.OidMaps
import Gart.Store.TableMarks
import Gart.Fragment.OidLookup
import Gart.Fragment.DeletedEdges
import Gart.Fragment.EdgeData
import Gart.Seggraph.WriterSteps
import Gart.Seggraph.HeldChains
import Gart.Seggraph.WatchedList
import Gart.Fragment.LoadedReader
import Gart.Seggraph.WriterRun
import Gart.Fragment.HeldList
import Gart.Fragment.LoadedSpec
import Gart.Fragment.Isolation
