import Openmina.Arith.ZModWindow
import Openmina.Arith.ListIndex
import Openmina.Arith.FinmapTotal
import Openmina.Control.ExceptOption
import Openmina.Merkle.Tree
import Openmina.Numbers.Checked
import Openmina.Numbers.Currency
import Openmina.Consensus.WindowDensity
import Openmina.Ledger.MinBalance
import Openmina.ScanState.FeeExcessCombine
import Openmina.Ledger.Address
import Openmina.Ledger.HashesMatrix
import Openmina.Ledger.Database
import Openmina.Ledger.DatabaseLocations
import Openmina.Ledger.Mask
import Openmina.Ledger.MaskHashes
import Openmina.Ledger.MaskCache
import Openmina.Ledger.MaskCommit
import Openmina.TransactionLogic.Account
import Openmina.TransactionLogic.Apply
import Openmina.TransactionLogic.FiniteMap
import Openmina.TransactionLogic.Effect
import Openmina.TransactionLogic.CommandEffect
import Openmina.TransactionLogic.TransferEffect
import Openmina.TransactionLogic.Supply
import Openmina.TransactionLogic.AccountMap
import Openmina.TransactionLogic.Conservation
import Openmina.Consensus.ForkChoice
import Openmina.Codec.Bytes
import Openmina.Codec.BoundedString
import Openmina.P2p.Kad.RoutingTable
import Openmina.Sync.SnarkedLedger
import Openmina.P2p.Yamux.State
import Openmina.P2p.Yamux.Parse
import Openmina.P2p.Yamux.Reducer
import Openmina.P2p.Yamux.Flow
import Openmina.P2p.Pubsub.IncomingData
import Openmina.TransactionPool.IndexedPool
import Openmina.TransactionPool.ReplaceByFee
import Openmina.TransactionPool.Includable
import Openmina.Arith.MsbBits
import Openmina.Ledger.Address.Raw
import Openmina.Codec.Base58
import Openmina.Ledger.MaskUnattached
import Openmina.Ledger.MaskUnattachedRoot
import Openmina.Collections.SortedMap
import Openmina.Core.DistributedPool
import Openmina.Arith.BreadthFirst
import Openmina.ScanState.ParallelScan.Tree
import Openmina.ScanState.ParallelScan.Split
import Openmina.ScanState.ParallelScan.Fill
import Openmina.ScanState.ParallelScan.Reset
import Openmina.ScanState.ParallelScan.Frame
import Openmina.ScanState.ParallelScan.Scan
import Openmina.ScanState.ParallelScan.Pending
import Openmina.StagedLedger.PreDiffInfo
