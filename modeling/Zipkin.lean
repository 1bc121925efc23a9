import Zipkin.Span
import Zipkin.TraceMerge
import Zipkin.TraceTree
import Zipkin.TimeSkewAdjuster
import Zipkin.Base.AssocMap
import Zipkin.Base.RoseTree
import Zipkin.SkewTree
import Zipkin.SkewReach
import Zipkin.SkewOrder
import Zipkin.Libs
import Zipkin.Json
import Zipkin.JsonRoundTrip
import Zipkin.QueryController
import Zipkin.RepeatedRead
import Zipkin.QueryTraceIds
import Zipkin.QueryEndTs
import Zipkin.QueryInMemory
import Zipkin.CassandraNames
import Zipkin.CassandraNameIndex
import Zipkin.CassandraMatches
import Zipkin.Thrift
import Zipkin.CassandraTraces
import Zipkin.WrittenNames
import Zipkin.Base.Rounding
import Zipkin.RedisIndex
import Zipkin.RedisIndexed
import Zipkin.RedisRecorded
import Zipkin.RedisMatches
import Zipkin.RedisStorage
import Zipkin.DB
import Zipkin.AnormMerged
import Zipkin.AnormDependencyStore
import Zipkin.CassandraDependencyStore
import Zipkin.DependencyLinks
import Zipkin.ItemQueue
import Zipkin.Collector
import Zipkin.AdaptiveSampler
import Zipkin.SamplerOutliers
import Zipkin.SkewQuiet
import Zipkin.SkewTwice
import Zipkin.SkewFrame
import Zipkin.TraceForest
import Zipkin.TraceDepths
import Zipkin.InMemoryAnswers
import Zipkin.ZKClient
import Zipkin.DependencySums
import Zipkin.DependencyMonoid
import Zipkin.QueryRounds
import Zipkin.SkewReference
import Zipkin.SkewClocks
import Zipkin.SkewEstranged
import Zipkin.CassandraTimestamps
import Zipkin.NameWrites
import Zipkin.RedisLatest
import Zipkin.BlockingItemQueue
import Zipkin.KafkaStreamProcessor
import Zipkin.SamplerSettles
import Zipkin.SkewArithmetic
import Zipkin.TraceZoom
import Zipkin.PayloadBuffer
import Zipkin.Util
import Zipkin.Base.Sweep
import Zipkin.TraceSummary
import Zipkin.Handlers
import Zipkin.Base.Visit
import Zipkin.TracePage
import Zipkin.ServiceFilters
import Zipkin.Base.Cut
import Zipkin.QueryExtractor
import Zipkin.AnnotationQuery
import Zipkin.AnormFound
import Zipkin.DependencyPage
import Zipkin.Leadership
import Zipkin.RedisInterleaved
import Zipkin.SampleRate
import Zipkin.GeneratedTrace
import Zipkin.CollectorFound
