import Tsink.Auth.OidcSignature
import Tsink.Cluster.Failover
import Tsink.Cluster.OutboxReplay
import Tsink.Cluster.Placement
import Tsink.Cluster.Recovery
import Tsink.Cluster.Snapshot
import Tsink.Compaction.FinalLevel
import Tsink.Compaction.Window
import Tsink.Deletion.Interleaving
import Tsink.Encoder.TimestampsRoundTrip
import Tsink.Encoder.ValuesRoundTrip
import Tsink.Ingest.NoTrace
import Tsink.Promql.Lexer
import Tsink.Promql.NaturalOrder
import Tsink.Query.Downsample
import Tsink.Query.ShardDigest
import Tsink.Query.Tiering
import Tsink.Rules.Alert
import Tsink.Segment.TimeBuckets
import Tsink.Tenancy.Readback
import Tsink.Tombstone.Crash
import Tsink.Visibility.Recency
import Tsink.Visibility.SummariesSpec
import Tsink.Wal.Exact
import Tsink.Wal.PayloadRoundTrip
import Tsink.Wal.Positions
