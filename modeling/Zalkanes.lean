import Zalkanes.Carrier
import Zalkanes.Consensus
import Zalkanes.Contracts.Counter
import Zalkanes.Contracts.KeyValue
import Zalkanes.Contracts.Runs
import Zalkanes.Contracts.Sdk
import Zalkanes.Contracts.Token
import Zalkanes.Contracts.TokenRuns
import Zalkanes.Indexer.Admitted
import Zalkanes.Indexer.Block
import Zalkanes.Indexer.Budget
import Zalkanes.Indexer.Calls
import Zalkanes.Indexer.Caps
import Zalkanes.Indexer.CatchUp
import Zalkanes.Indexer.CommitSize
import Zalkanes.Indexer.Converge
import Zalkanes.Indexer.DeployRoundTrip
import Zalkanes.Indexer.Deployed
import Zalkanes.Indexer.Dropped
import Zalkanes.Indexer.FaultPatterns
import Zalkanes.Indexer.FreshIndex
import Zalkanes.Indexer.Health
import Zalkanes.Indexer.HealthRuns
import Zalkanes.Indexer.Limits
import Zalkanes.Indexer.Nodes
import Zalkanes.Indexer.Process
import Zalkanes.Indexer.ReadFaults
import Zalkanes.Indexer.Reconstruction
import Zalkanes.Indexer.RecordChain
import Zalkanes.Indexer.Records
import Zalkanes.Indexer.Reorg
import Zalkanes.Indexer.ReorgLoop
import Zalkanes.Indexer.Replay
import Zalkanes.Indexer.RootChain
import Zalkanes.Indexer.Runs
import Zalkanes.Indexer.Sequential
import Zalkanes.Indexer.StableHealth
import Zalkanes.Indexer.StorageBounds
import Zalkanes.Indexer.StoreProgram
import Zalkanes.Indexer.Sync
import Zalkanes.Indexer.TwoWrites
import Zalkanes.Indexer.TxCalls
import Zalkanes.Indexer.Writes
import Zalkanes.Lib.Bytes
import Zalkanes.Lib.Delimited
import Zalkanes.Lib.Effects
import Zalkanes.Lib.HashChain
import Zalkanes.Lib.KeyedLog
import Zalkanes.Lib.Machine
import Zalkanes.Lib.SortedHash
import Zalkanes.Lib.Versions
import Zalkanes.Lib.WriteLog
import Zalkanes.Protocol
import Zalkanes.Reference.Decode
import Zalkanes.Reference.Reconstruct
import Zalkanes.Reference.Root
import Zalkanes.Rpc.Readiness
import Zalkanes.Rpc.View
import Zalkanes.Runtime.Calls
import Zalkanes.Runtime.Execute
import Zalkanes.Runtime.Host
import Zalkanes.Runtime.Instantiate
import Zalkanes.Runtime.Metering
import Zalkanes.Runtime.Overlay
import Zalkanes.State.Agreement
import Zalkanes.State.Backend
import Zalkanes.State.Commitment
import Zalkanes.State.Crash
import Zalkanes.State.Journal
import Zalkanes.State.Memory
import Zalkanes.State.MemoryRuns
import Zalkanes.State.Records
import Zalkanes.State.Rocks
import Zalkanes.State.RocksBuild
import Zalkanes.State.RocksLedger
import Zalkanes.State.RocksRollback
import Zalkanes.State.Root
import Zalkanes.State.RootOfCommit
import Zalkanes.State.Store
import Zalkanes.State.UndoCodec
import Zalkanes.Transaction
import Zalkanes.Types
import Zalkanes.Wallet.Anomalies
import Zalkanes.Wallet.Broadcast
import Zalkanes.Wallet.CallRoundTrip
import Zalkanes.Wallet.Commit
import Zalkanes.Wallet.Execute
import Zalkanes.Wallet.FinalPools
import Zalkanes.Wallet.FundedRuns
import Zalkanes.Wallet.Intent
import Zalkanes.Wallet.Interruptions
import Zalkanes.Wallet.Journal
import Zalkanes.Wallet.JournalSql
import Zalkanes.Wallet.Keystore
import Zalkanes.Wallet.MinedCanonical
import Zalkanes.Wallet.NoteRounds
import Zalkanes.Wallet.NoteStore
import Zalkanes.Wallet.OrphanLocks
import Zalkanes.Wallet.Outside
import Zalkanes.Wallet.PlanState
import Zalkanes.Wallet.Planning
import Zalkanes.Wallet.PoolBundle
import Zalkanes.Wallet.PoolPlan
import Zalkanes.Wallet.Prepared
import Zalkanes.Wallet.ReconcileStable
import Zalkanes.Wallet.Recovery
import Zalkanes.Wallet.RecoveryConverges
import Zalkanes.Wallet.RecoveryIdempotent
import Zalkanes.Wallet.ReleaseSafety
import Zalkanes.Wallet.Request
import Zalkanes.Wallet.Scan
import Zalkanes.Wallet.ScanLinked
import Zalkanes.Wallet.ScriptSigs
import Zalkanes.Wallet.SelectionComplete
import Zalkanes.Wallet.SendOnce
import Zalkanes.Wallet.ShieldedPlan
import Zalkanes.Wallet.ShieldedStages
import Zalkanes.Wallet.Standard
import Zalkanes.Wallet.Steady
import Zalkanes.Wallet.StrayLocks
import Zalkanes.Wallet.TwoStageDeploy
import Zalkanes.Wallet.VerifyExtracted
import Zalkanes.Wallet.WrittenAhead
import Zalkanes.Wire
