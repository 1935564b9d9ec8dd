import OpenEtl.Pipeline.Monotone
import OpenEtl.Pipeline.PartialBatch
import OpenEtl.Server.Lifecycle
import OpenEtl.Retry.Success
import OpenEtl.Sink.Converge
import OpenEtl.Source.PgTables
import OpenEtl.Source.PgTruncate
import OpenEtl.Source.PgIdentity
import OpenEtl.Source.PgNoGap
import OpenEtl.Source.MysqlResume
import OpenEtl.Source.BatchPaging
import OpenEtl.Source.HttpPages
import OpenEtl.Server.SpecUpdate
import OpenEtl.Sink.PreWrite
import OpenEtl.Sink.ContentNames
import OpenEtl.Sink.PartitionOverwrite
import OpenEtl.Sink.OneByOne
import OpenEtl.Server.DedupReplay
import OpenEtl.Server.ReplayRace
import OpenEtl.Server.ClientIP
import OpenEtl.Server.Masking
import OpenEtl.Storage.Export
import OpenEtl.Server.DlqCodec
import OpenEtl.Server.Rejected
import OpenEtl.Pipeline.SourceMaps
import OpenEtl.Pipeline.WindowCrash
import OpenEtl.Pipeline.EndOfStream
import OpenEtl.Master.Dispatch
import OpenEtl.Master.ShardCheckpoint
import OpenEtl.Pipeline.Parallel
import OpenEtl.Pipeline.Breaker
import OpenEtl.Core.Sharding
import OpenEtl.Source.KafkaOffsets
import OpenEtl.Source.Resnapshot
import OpenEtl.Sink.IntegerColumns
import OpenEtl.Storage.Envelope
import OpenEtl.Transform.DedupWindow
import OpenEtl.Transform.Renaming
import OpenEtl.Transform.WindowOnce
import OpenEtl.Source.Redis
