import GoblinStore.Lib.Bytes
import GoblinStore.Lib.Runs
import GoblinStore.Lib.Dyadic
import GoblinStore.Lib.Table
import GoblinStore.Lib.Gather
import GoblinStore.Lib.Ring
import GoblinStore.Lib.Text
import GoblinStore.Lib.Sha2
import GoblinStore.Common.Types
import GoblinStore.Crypto.Sha256
import GoblinStore.Core.BuddyAllocator
import GoblinStore.Core.BuddyRuns
import GoblinStore.Core.BufferPool
import GoblinStore.Core.PoolRuns
import GoblinStore.Storage.DrivePool
import GoblinStore.Storage.Tiling
import GoblinStore.Storage.Layout
import GoblinStore.Storage.S3Fifo
import GoblinStore.Storage.S3FifoQueues
import GoblinStore.Storage.LazyDeletion
import GoblinStore.Storage.S3FifoHistory
import GoblinStore.Storage.FileSystem
import GoblinStore.Storage.Pool
import GoblinStore.Storage.PoolMoves
import GoblinStore.Storage.StripedIo
import GoblinStore.Storage.Index
import GoblinStore.Storage.TierManager
import GoblinStore.Storage.Steps
import GoblinStore.Storage.Changes
import GoblinStore.Storage.HandleScope
import GoblinStore.Storage.Ledger
import GoblinStore.Storage.Entries
import GoblinStore.Storage.HeadOwnership
import GoblinStore.Storage.HeadMoves
import GoblinStore.Storage.Residency
import GoblinStore.Storage.HeadCache
import GoblinStore.Storage.PinCounts
import GoblinStore.Storage.Reaper
import GoblinStore.Storage.ObjectBound
import GoblinStore.Storage.ScratchFiles
import GoblinStore.Storage.DiskTiers
import GoblinStore.Storage.Staging
import GoblinStore.Storage.StageBuffers
import GoblinStore.Storage.History
import GoblinStore.Storage.StoredObjects
import GoblinStore.Storage.Reads
import GoblinStore.Storage.Striping
import GoblinStore.Storage.ScratchCleanup
import GoblinStore.Storage.FileSet
import GoblinStore.Storage.FailedBegin
import GoblinStore.Storage.RoundTrip
import GoblinStore.Storage.PinnedHeads
import GoblinStore.Storage.LossyMap
import GoblinStore.Storage.LiveFiles
import GoblinStore.Storage.ReadAtomicity
import GoblinStore.Storage.Snapshots
import GoblinStore.Storage.Cas
import GoblinStore.Memcache.Server
import GoblinStore.Storage.StripedRead
import GoblinStore.Storage.TierRead
import GoblinStore.Net.LaneReads
import GoblinStore.Net.StreamLoop
import GoblinStore.Net.LaneInvariant
import GoblinStore.Net.Pump
import GoblinStore.Net.DirectReads
import GoblinStore.Net.Completions
import GoblinStore.Net.PipelineEvents
import GoblinStore.Net.LoopRuns
import GoblinStore.Net.ShortReads
import GoblinStore.Http.KeyDerivation
import GoblinStore.Http.CanonicalKeys
import GoblinStore.Net.Waiters
import GoblinStore.Net.ParkedOrder
import GoblinStore.Net.Holdings
import GoblinStore.Net.Addresses
import GoblinStore.Memcache.Protocol
import GoblinStore.Net.Handlers
import GoblinStore.Net.Turns
import GoblinStore.Net.Protocols
import GoblinStore.Memcache.EventLoop
import GoblinStore.Memcache.Lines
import GoblinStore.Memcache.MetaLines
import GoblinStore.Memcache.CommandLines
import GoblinStore.Memcache.MetaRaces
import GoblinStore.Memcache.Expiry
import GoblinStore.Memcache.ConditionalStores
import GoblinStore.Http.Request
import GoblinStore.Http.Ranges
import GoblinStore.Http.HttpLoop
import GoblinStore.Http.Connections
import GoblinStore.Http.Heads
import GoblinStore.Http.KeepAlive
import GoblinStore.Http.EntityTags
import GoblinStore.Http.NotModified
import GoblinStore.Net.InputBounds
