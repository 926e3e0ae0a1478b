import OrbsNetwork.Lib.Binary64
import OrbsNetwork.Lib.JsNumber
import OrbsNetwork.Lib.Json
import OrbsNetwork.Lib.JsonRoundtrip
import OrbsNetwork.Lib.Sha256
import OrbsNetwork.Lib.Base58
import OrbsNetwork.Lib.Utf8
import OrbsNetwork.Lib.Lts
import OrbsNetwork.Lib.JsMap
import OrbsNetwork.Lib.JsValue
import OrbsNetwork.Lib.JsCoerce
import OrbsNetwork.Lib.JsObject
import OrbsNetwork.JsonBuffer
import OrbsNetwork.Lib.JsCodec
import OrbsNetwork.Lib.JsonSorted
import OrbsNetwork.Primitives
import OrbsNetwork.Lib.HashChain
import OrbsNetwork.BlockUtils
import OrbsNetwork.Lib.JsCanonical
import OrbsNetwork.BlockHash
import OrbsNetwork.Lib.JsReorder
import OrbsNetwork.BlockRoundtrip
import OrbsNetwork.BlockStorage
import OrbsNetwork.PersistedChain
import OrbsNetwork.BlockStorageFailures
import OrbsNetwork.Lib.Paging
import OrbsNetwork.MapOverBlocks
import OrbsNetwork.BlockStorageService
import OrbsNetwork.SyncPeer
import OrbsNetwork.Lib.Tower
import OrbsNetwork.BlockStorageSync
import OrbsNetwork.AddBlockRpc
import OrbsNetwork.Lib.Chunk
import OrbsNetwork.SendNewBlocks
import OrbsNetwork.BlockBuilder
import OrbsNetwork.BlockBuilderPolling
import OrbsNetwork.StubConsensus
import OrbsNetwork.StubCluster
import OrbsNetwork.Lib.Hex
import OrbsNetwork.Lib.Split
import OrbsNetwork.StateStorage
import OrbsNetwork.InMemoryKVStore
import OrbsNetwork.Address
import OrbsNetwork.RawAddress
import OrbsNetwork.TransactionId
import OrbsNetwork.TransactionPool
import OrbsNetwork.Lib.StateProg
import OrbsNetwork.VirtualMachine
import OrbsNetwork.StateCacheKeys
import OrbsNetwork.Processor
import OrbsNetwork.KinAtnSmartContract
import OrbsNetwork.Lib.Ledger
import OrbsNetwork.TokenTransfer
import OrbsNetwork.TokenPool
import OrbsNetwork.TokenBounds
import OrbsNetwork.BenchmarkConsensus
import OrbsNetwork.BenchmarkIndex
import OrbsNetwork.BlockCommit
import OrbsNetwork.TransactionAdmission
import OrbsNetwork.PoolExpiry
import OrbsNetwork.Lib.Calendar
import OrbsNetwork.SubscriptionManager
import OrbsNetwork.Gossip
import OrbsNetwork.Lib.JsonWriter
import OrbsNetwork.Lib.Radix
import OrbsNetwork.ClientAddress
import OrbsNetwork.Base58Decode
import OrbsNetwork.AddressValidity
import OrbsNetwork.OrbsClient
import OrbsNetwork.ClientRequests
import OrbsNetwork.Lib.AsyncProg
import OrbsNetwork.Lib.JsOperators
import OrbsNetwork.SmartContracts
import OrbsNetwork.ReadOnlyCall
import OrbsNetwork.ExpectedErrors
import OrbsNetwork.Lib.AskProg
import OrbsNetwork.BlockExecution
import OrbsNetwork.ContractRuns
import OrbsNetwork.Lib.JsonReread
import OrbsNetwork.TextMessages
import OrbsNetwork.EventCounts
import OrbsNetwork.Lib.Soup
import OrbsNetwork.SyncNetwork
import OrbsNetwork.SyncCatchUp
import OrbsNetwork.Lib.JsMapOrder
import OrbsNetwork.LeaderNode
import OrbsNetwork.LeaderQueue
import OrbsNetwork.LeaderCluster
import OrbsNetwork.LeaderStalls
import OrbsNetwork.LeaderProgress
import OrbsNetwork.PoolNetwork
