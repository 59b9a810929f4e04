import Age.Agtype.Binary.RawRoundTrip
import Age.Agtype.Text.Replay
import Age.Agtype.Arithmetic
import Age.Agtype.Order
import Age.Agtype.GinExists
import Age.Agtype.HashCmp
import Age.Agtype.Find
import Age.Agtype.Pushed
import Age.Agtype.ContainsAgree
import Age.Agtype.ContainsCache
import Age.Vle.Enumerate
import Age.Vle.EdgeIdentity
import Age.Adjacency.Visibility
import Age.Adjacency.VisibleScan
import Age.Adjacency.Contents
import Age.Graph.ContextCache
import Age.Graph.VersionSlots
import Age.Graph.GraphCaches
import Age.Graph.EdgeTids
import Age.Graph.LoadedAdjacency
import Age.Executor.SetRow
import Age.Executor.DeleteClause
import Age.Vle.LocalContext
import Age.Executor.GenericJoin.ConsumersAgree
import Age.Executor.GenericJoin.RangeLookups
import Age.Adjacency.Codec
import Age.Adjacency.DirectoryCache
import Age.Adjacency.DirectorySkip
import Age.Adjacency.PageCache
import Age.Parser.IntegerLiteral
import Age.Executor.Factorized.SourceCorrelation
import Age.Agtype.ContainsPreorder
import Age.Agtype.Operators
import Age.Agtype.Delete
import Age.Agtype.Access
import Age.Agtype.InOperator
import Age.Vle.PropertyMatch
import Age.Vle.SliceBoundary
import Age.Vle.EdgeUniqueness
import Age.Executor.MergeOnce
import Age.Executor.WcojBlocks
