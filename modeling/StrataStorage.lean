import StrataStorage.Branch.Checkpoint
import StrataStorage.Branch.ScanSearch
import StrataStorage.Commit.Recovery
import StrataStorage.Commit.Serial
import StrataStorage.Engine.Event.Run
import StrataStorage.Engine.RowKeys
import StrataStorage.Executor.WireJson
import StrataStorage.Format.Table.Decoder
import StrataStorage.Format.TableManifestCodec
import StrataStorage.Lifecycle.Coverage
import StrataStorage.Lifecycle.ManifestDebt
import StrataStorage.Lifecycle.Reclaim
import StrataStorage.Runtime.GroupRun
import StrataStorage.Table.Builder
import StrataStorage.Table.Views
import StrataStorage.Wal.Retention
import StrataStorage.Wal.Tail
