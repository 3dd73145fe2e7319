import Agenor.Lib.Wrap
import Agenor.Lib.Fallible
import Agenor.Lib.WriteBack
import Agenor.Lib.Patch
import Agenor.Script
import Agenor.Transaction
import Agenor.Params
import Agenor.Validation
import Agenor.Coins
import Agenor.CoinsStack
import Agenor.Zerocoin
import Agenor.Node
import Agenor.TxVerify
import Agenor.CheckBlock
import Agenor.ConnectBlock
import Agenor.DisconnectBlock
import Agenor.VerifyDB
import Agenor.ConnectStep
import Agenor.SupplyBound
import Agenor.ZerocoinOff
import Agenor.Ledger
import Agenor.DisconnectStep
import Agenor.ChainState
import Agenor.MoneySupply
import Agenor.ZerocoinSupply
import Agenor.ZerocoinRollback
import Agenor.UtxoUpdate
import Agenor.UndoBlock
import Agenor.ColdStaking
import Agenor.StakeInput
import Agenor.Bloom
import Agenor.ScriptSlices
import Agenor.Lib.Run
import Agenor.SwiftTX
import Agenor.SwiftLocks
import Agenor.SwiftConsensus
import Agenor.SwiftBookkeeping
import Agenor.SwiftNetwork
import Agenor.MasternodePayments
import Agenor.MasternodeReward
import Agenor.PayeeVotes
import Agenor.Budget
import Agenor.Superblocks
import Agenor.ForgedMessages
import Agenor.BudgetVotes
import Agenor.Lib.Ancestry
import Agenor.BlockTree
import Agenor.BlockTreeInv
import Agenor.BlockTreeAccept
import Agenor.BlockTreeActivate
import Agenor.BlockTreeRuns
import Agenor.Masternode
import Agenor.MasternodePings
import Agenor.MasternodeAnnounce
import Agenor.MasternodeScore
import Agenor.Lib.Arrange
import Agenor.MasternodeRank
import Agenor.MasternodeForged
import Agenor.Spork
import Agenor.AddrMan
import Agenor.AddrManTables
import Agenor.AddrManRuns
import Agenor.AddrManFile
import Agenor.AddrManCheck
import Agenor.Lib.Walk
import Agenor.Mempool
import Agenor.MempoolSteps
import Agenor.MempoolAccept
import Agenor.MempoolSpends
import Agenor.MempoolLinks
import Agenor.MempoolTracks
import Agenor.MempoolInv
import Agenor.MempoolRemove
import Agenor.IndexBlock
import Agenor.BudgetHistory
import Agenor.MasternodeCollateral
import Agenor.BlockDownload
import Agenor.BlockTreeBest
import Agenor.Lib.Merkle
import Agenor.Lib.PartialTree
import Agenor.Merkle
import Agenor.MerkleBlock
import Agenor.CheckQueue
import Agenor.Lib.ReadBack
import Agenor.Serialize
import Agenor.Compressor
import Agenor.Interpreter
import Agenor.InterpreterFlags
import Agenor.ScriptChecks
import Agenor.FinalizedBudget
import Agenor.Lib.Greedy
import Agenor.BudgetAllocation
import Agenor.Lib.Tally
import Agenor.CoinsUsage
import Agenor.MasternodeCleanup
import Agenor.MerkleBranch
import Agenor.DisconnectThrows
import Agenor.InterpreterAccess
import Agenor.AddrManRoundTrip
import Agenor.MempoolAdd
import Agenor.MempoolReorg
import Agenor.MempoolRuns
import Agenor.Lib.Assign
import Agenor.MultiSig
import Agenor.SignatureHash
import Agenor.SkipList
import Agenor.Lib.ReverseIndex
import Agenor.Orphans
import Agenor.StakeKernel
import Agenor.StakeModifier
import Agenor.Lib.Halving
import Agenor.Subsidy
import Agenor.Lib.Ranking
import Agenor.MempoolOrder
import Agenor.MempoolLimits
import Agenor.Lib.Eviction
import Agenor.MempoolTrim
import Agenor.Lib.Limbs
import Agenor.BaseUint
import Agenor.Lib.Truncate
import Agenor.CompactTarget
import Agenor.Pow
import Agenor.ChainWork
import Agenor.Solver
import Agenor.DelegationScript
import Agenor.Lib.CutTree
import Agenor.Lib.PackBits
import Agenor.PartialMerkle
import Agenor.ActiveChain
import Agenor.DisconnectBlocks
import Agenor.TxStructure
import Agenor.CoinStake
import Agenor.TimeData
import Agenor.LimitedMap
import Agenor.BloomFilter
import Agenor.RollingBloom
import Agenor.CoinSelection
import Agenor.CoinsToSpend
import Agenor.CreateTransaction
import Agenor.FundTransaction
import Agenor.Base58
import Agenor.ParseFixedPoint
import Agenor.SelectMints
import Agenor.MoneyStr
import Agenor.Base64
import Agenor.Bech32
import Agenor.Bech32Distance
import Agenor.VarInt
import Agenor.ScriptNum
import Agenor.NetMessage
import Agenor.NetReceive
import Agenor.NetLink
import Agenor.BlockRequests
import Agenor.NewBlockRuns
import Agenor.GetBlocksRun
