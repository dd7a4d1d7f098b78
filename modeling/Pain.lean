import Pain.Base.Types
import Pain.Base.UuidText
import Pain.Base.Future
import Pain.Lib.Run
import Pain.Base.Promise
import Pain.Base.ScopeExit
import Pain.Lib.Simulation
import Pain.Lib.Extent
import Pain.Lib.IntrusiveSet
import Pain.Lib.Segments
import Pain.Lib.SegmentRanges
import Pain.Lib.PrefixRange
import Pain.Lib.Rooted
import Pain.Lib.Wire
import Pain.Manusya.Store
import Pain.Manusya.MemStore
import Pain.Manusya.Chunk
import Pain.Manusya.Bank
import Pain.Manusya.Steps
import Pain.Manusya.AppendExactness
import Pain.Manusya.SealFinality
import Pain.Manusya.WriteFrontier
import Pain.Manusya.Batch
import Pain.Manusya.LocalStore
import Pain.Manusya.Restart
import Pain.Manusya.Threads
import Pain.Manusya.Removal
import Pain.Manusya.Alike
import Pain.Manusya.SameFiles
import Pain.Manusya.Backends
import Pain.Manusya.ReadRange
import Pain.Manusya.RemoveChunk
import Pain.Manusya.FilePosition
import Pain.Manusya.Attributes
import Pain.Manusya.MemAttributes
import Pain.Manusya.Modes
import Pain.Manusya.SealFailure
import Pain.Manusya.Requests
import Pain.Manusya.ListChunk
import Pain.Deva.Path
import Pain.Deva.ParsePath
import Pain.Deva.Namespace
import Pain.Deva.Deva
import Pain.Deva.WellFormed
import Pain.Deva.UniqueNames
import Pain.Deva.Splitters
import Pain.Deva.Tree
import Pain.Deva.Stability
import Pain.Deva.Ghosts
import Pain.Deva.Op
import Pain.Deva.Proto
import Pain.Deva.Rsm
import Pain.Deva.LogReplay
import Pain.Deva.Snapshot
import Pain.Deva.Leader
import Pain.Deva.LeaderOrder
import Pain.Deva.Submission
import Pain.Deva.Framing
import Pain.Deva.Service
import Pain.Common.RocksdbStore
import Pain.Common.Hashes
import Pain.Common.Recover
import Pain.Asura.Proto
import Pain.Asura.Service
import Pain.Asura.Registry
import Pain.Asura.Concurrent
import Pain.Asura.Crash
import Pain.Sdk.CallRpc
import Pain.Sdk.FileSystem
import Pain.Lib.Family
import Pain.Lib.Scopes
import Pain.Base.ContextStorage
import Pain.Lib.Monitor
import Pain.Base.FutureThreads
import Pain.Common.CheckPoint
import Pain.Lib.Pool
import Pain.Manusya.Sections
import Pain.Manusya.Handlers
import Pain.Manusya.HandlerSteps
import Pain.Manusya.Replies
import Pain.Lib.History
import Pain.Deva.Linearized
import Pain.Deva.Acknowledged
import Pain.Lib.RefCount
import Pain.Manusya.Lifetimes
