import HotPath.Foundation.Transition
import HotPath.Foundation.CircularBytes
import HotPath.SharedMemory.Layout
import HotPath.SharedMemory.Ring
import HotPath.SharedMemory.Roster
import HotPath.SharedMemory.SlotOwnership
import HotPath.SharedMemory.Backpressure
import HotPath.SharedMemory.Liveness
import HotPath.Foundation.AppendLog
import HotPath.SharedMemory.BroadcastLog
import HotPath.SharedMemory.LogRefinement
import HotPath.Concurrency.Ebr
import HotPath.Concurrency.EpochInvariant
import HotPath.Concurrency.EpochSteps
import HotPath.Concurrency.FiniteMap
import HotPath.Concurrency.Reclamation
import HotPath.Concurrency.Lifetimes
import HotPath.Concurrency.Linearization
import HotPath.Concurrency.Retirement
import HotPath.Concurrency.SeqLock
import HotPath.Locks.EpisodeRouteCache
import HotPath.Locks.SpinTrial
import HotPath.Locks.LockTrial
import HotPath.Locks.RouteCacheTrial
import HotPath.Locks.SeqlockTrial
import HotPath.Locks.ThreeStateLock
import HotPath.StoreBuffer.SpscRing
import HotPath.SharedMemory.Overtaking
import HotPath.SharedMemory.CopyAtomicity
import HotPath.SharedMemory.Eviction
import HotPath.Coherency.BatchedIds
import HotPath.Locks.SerialLedgers
import HotPath.SharedMemory.MirrorBounds
import HotPath.SharedMemory.RetryLoop
import HotPath.SharedMemory.BatchSteps
import HotPath.SharedMemory.ZeroCopyReports
import HotPath.SharedMemory.LateAdvance
import HotPath.SharedMemory.AttachedProducer
import HotPath.SharedMemory.PublishedCursor
import HotPath.SharedMemory.BroadcastSession
import HotPath.Concurrency.CriticalSections
import HotPath.Concurrency.RetiredBound
import HotPath.Concurrency.GcTermination
import HotPath.Concurrency.BatchOrder
import HotPath.Concurrency.BatchCollection
import HotPath.Concurrency.ShownEpochs
import HotPath.Concurrency.PendingNodes
import HotPath.Concurrency.WaitFreeWalk
import HotPath.Concurrency.BucketSelection
import HotPath.SharedMemory.RingLifecycle
import HotPath.SharedMemory.MapOwnership
import HotPath.Locks.MixHash
import HotPath.Locks.AccountChecksum
import HotPath.Measurement.CacheFlush
import HotPath.Foundation.Alignment
import HotPath.Syscalls.OrderBookArena
import HotPath.CppVsJava.OrderEvents
import HotPath.Foundation.Loops
import HotPath.Execution.UnrolledSums
import HotPath.Execution.LookaheadFilter
import HotPath.Foundation.CyclicOrder
import HotPath.Measurement.PointerChase
import HotPath.Learning.Loss
import HotPath.Learning.TwoLayerMlp
import HotPath.Learning.LayerKernels
import HotPath.Learning.FiniteDifferences
import HotPath.Foundation.ShardedSums
import HotPath.Coherency.ShardedCounter
import HotPath.Locks.ShardedHashMap
import HotPath.Locks.ShardTrial
import HotPath.Foundation.StoreBuffers
import HotPath.StoreBuffer.RingStores
import HotPath.StoreBuffer.RingMemory
import HotPath.StoreBuffer.TsoRing
import HotPath.Foundation.Completion
import HotPath.StoreBuffer.Handoff
import HotPath.StoreBuffer.Litmus
import HotPath.Coherency.IdTrial
