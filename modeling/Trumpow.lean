import Trumpow.Support.Bits
import Trumpow.Support.PadTree
import Trumpow.Consensus.Merkle
import Trumpow.Consensus.MerkleLoop
import Trumpow.Consensus.MerkleSweep
import Trumpow.Consensus.MerkleRoot
import Trumpow.Support.Search
import Trumpow.Primitives.Uint256
import Trumpow.Primitives.Transaction
import Trumpow.Script.Script
import Trumpow.AuxPow.AuxPow
import Trumpow.AuxPow.Check
import Trumpow.Support.Codec
import Trumpow.Serialize.Stream
import Trumpow.Serialize.VarInt
import Trumpow.Serialize.Transaction
import Trumpow.Coins.Compressor
import Trumpow.Coins.Coins
import Trumpow.Support.AListSum
import Trumpow.Support.Fold
import Trumpow.Support.Blanks
import Trumpow.Coins.Cache
import Trumpow.Coins.Writer
import Trumpow.Validation.UpdateCoins
import Trumpow.Chain.BlockIndex
import Trumpow.Chain.Chain
import Trumpow.Consensus.VersionBits
import Trumpow.Support.Batch
import Trumpow.Validation.AddressIndex
import Trumpow.Net.BlockEncodings
import Trumpow.Script.Ops
import Trumpow.Script.SigHash
import Trumpow.Support.SearchTree
import Trumpow.Consensus.Params
import Trumpow.Support.RoundDown
import Trumpow.Primitives.ArithUint256
import Trumpow.Consensus.Difficulty
import Trumpow.Chain.Work
import Trumpow.Net.BlockTransactionsRequest
import Trumpow.Script.ScriptNum
import Trumpow.Support.Greedy
import Trumpow.Script.Interpreter
import Trumpow.Script.CheckMultisig
import Trumpow.Script.EvalScript
import Trumpow.Util.StrEncodings
import Trumpow.Support.Digits
import Trumpow.Util.Base58
import Trumpow.Util.MoneyStr
import Trumpow.Primitives.BaseUint
import Trumpow.Support.Slots
import Trumpow.Primitives.Prevector
import Trumpow.Support.Transition
import Trumpow.CheckQueue.Queue
import Trumpow.CheckQueue.Invariant
import Trumpow.CheckQueue.Wait
import Trumpow.Serialize.Block
import Trumpow.Script.Standard
import Trumpow.Support.ByteBits
import Trumpow.Net.Bloom
import Trumpow.Net.Processing
import Trumpow.Net.PartialMerkleTree
import Trumpow.Net.MerkleBlock
import Trumpow.Support.Replace
import Trumpow.TxRequest.Tracker
import Trumpow.TxRequest.Index
import Trumpow.TxRequest.Invariant
import Trumpow.TxRequest.Operations
import Trumpow.TxRequest.Sanity
import Trumpow.TxRequest.Requestable
