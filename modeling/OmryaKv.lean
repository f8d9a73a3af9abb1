import OmryaKv.Types
import OmryaKv.Lib.Run
import OmryaKv.Lib.Ledger
import OmryaKv.Lib.CountMap
import OmryaKv.Lib.Codec
import OmryaKv.Lib.Versions
import OmryaKv.Lib.Serial
import OmryaKv.Lib.ByteOrder
import OmryaKv.Lib.OrderedCode
import OmryaKv.Lib.OrderedMap
import OmryaKv.Lib.Fueled
import OmryaKv.Lib.Effect
import OmryaKv.Lib.Threads
import OmryaKv.Lib.Aci
import OmryaKv.Snapshot.Tracker
import OmryaKv.Snapshot.Watermark
import OmryaKv.Snapshot.BatchVisibility
import OmryaKv.Snapshot.KeyspaceIter
import OmryaKv.Journal.Entry
import OmryaKv.Journal.Writer
import OmryaKv.Journal.Reader
import OmryaKv.Journal.Replay
import OmryaKv.Journal.TornTail
import OmryaKv.Journal.Reread
import OmryaKv.Journal.Lengths
import OmryaKv.Journal.Folder
import OmryaKv.Write.Frontend
import OmryaKv.Write.BatchCommit
import OmryaKv.Write.SingleWrite
import OmryaKv.Write.KeyLimits
import OmryaKv.Write.MemtableReplay
import OmryaKv.Write.Poisoning
import OmryaKv.Storage.Tree
import OmryaKv.Storage.Database
import OmryaKv.Storage.Recover
import OmryaKv.Storage.Catalog
import OmryaKv.Storage.EventLog
import OmryaKv.Storage.KeyspaceLog
import OmryaKv.Storage.Projection
import OmryaKv.Storage.Effects
import OmryaKv.Storage.JournalFiles
import OmryaKv.Storage.Opening
import OmryaKv.Storage.CrashRecovery
import OmryaKv.Storage.Ingestion
import OmryaKv.Storage.Refill
import OmryaKv.Storage.Identity
import OmryaKv.Storage.SeqnoRecovery
import OmryaKv.Storage.Handles
import OmryaKv.Storage.Restart
import OmryaKv.Storage.Eviction
import OmryaKv.Background.WorkerPool
import OmryaKv.Background.Shutdown
import OmryaKv.Background.WriteBuffer
import OmryaKv.Background.BufferAccounting
import OmryaKv.Config.Policies
import OmryaKv.Config.CreateOptions
import OmryaKv.Config.RoundTrip
import OmryaKv.Config.MetaKeyspace
import OmryaKv.Config.Records
import OmryaKv.Config.Survival
import OmryaKv.Tx.ConflictManager
import OmryaKv.Tx.Oracle
import OmryaKv.Tx.Accounting
import OmryaKv.Tx.BaseTransaction
import OmryaKv.Tx.WriteTransaction
import OmryaKv.Tx.OptimisticTxDatabase
import OmryaKv.Tx.Invariant
import OmryaKv.Tx.Serializability
import OmryaKv.Tx.Readable
import OmryaKv.Tx.OwnWrites
import OmryaKv.Tx.SingleWriterTxDatabase
import OmryaKv.Tx.Sequential
import OmryaKv.Tx.ConflictDetection
import OmryaKv.Secure.Composite
import OmryaKv.Secure.Visibility
import OmryaKv.Secure.Providers
import OmryaKv.Secure.Crypto
import OmryaKv.Secure.Cell
import OmryaKv.Secure.Keyspace
import OmryaKv.Secure.Tx
import OmryaKv.Secure.FailClosed
import OmryaKv.Secure.CellMap
import OmryaKv.Secure.Noninterference
import OmryaKv.Secure.ConflictOutcome
import OmryaKv.Secure.Retention
import OmryaKv.Secure.PolicyInForce
import OmryaKv.Secure.Grammar
import OmryaKv.Secure.NormalForm
import OmryaKv.Secure.Canonical
import OmryaKv.Secure.Meaning
import OmryaKv.Secure.CellExt
import OmryaKv.Secure.Scan
import OmryaKv.Secure.ScanLimit
import OmryaKv.Secure.GroupDelete
import OmryaKv.Secure.Verdicts
import OmryaKv.Secure.Expiry
import OmryaKv.Secure.SortedRuns
import OmryaKv.Lib.Linearizable
import OmryaKv.Tx.KeyspaceCalls
import OmryaKv.Background.FlushProgress
import OmryaKv.Background.StuckPool
import OmryaKv.Storage.Endurance
import OmryaKv.Storage.Sessions
import OmryaKv.Journal.BufferedWriter
import OmryaKv.Write.CrashSafety
import OmryaKv.Write.Durability
