import ThletEvaluation.Lib.Run
import ThletEvaluation.Lib.Observer
import ThletEvaluation.Lib.Chain
import ThletEvaluation.Lib.Memory
import ThletEvaluation.Lib.Bytes
import ThletEvaluation.Lib.Ring
import ThletEvaluation.Lib.Loop
import ThletEvaluation.Lib.Sort
import ThletEvaluation.Lib.Checks
import ThletEvaluation.Lib.Queue
import ThletEvaluation.Lib.Threads
import ThletEvaluation.Lib.Locked
import ThletEvaluation.Shinjuku.Common
import ThletEvaluation.Shinjuku.Mempool
import ThletEvaluation.Shinjuku.MempoolLayout
import ThletEvaluation.Shinjuku.MempoolCalls
import ThletEvaluation.Shinjuku.MempoolConservation
import ThletEvaluation.Shinjuku.MempoolChunks
import ThletEvaluation.Shinjuku.MempoolStages
import ThletEvaluation.Linux.Hash
import ThletEvaluation.Linux.KeyValue
import ThletEvaluation.Linux.Rpc
import ThletEvaluation.Linux.Server
import ThletEvaluation.Linux.Udp
import ThletEvaluation.Linux.HashLocks
import ThletEvaluation.Linux.ServerSystem
import ThletEvaluation.Linux.ServerConnections
import ThletEvaluation.Linux.ServerMemory
import ThletEvaluation.Linux.ClientLockstep
import ThletEvaluation.Linux.RpcQueues
import ThletEvaluation.Linux.ThreadPool
import ThletEvaluation.Linux.KeyField
import ThletEvaluation.Linux.Slots
import ThletEvaluation.Linux.KernelWorker
import ThletEvaluation.Linux.Latency
import ThletEvaluation.Linux.RingBuffer
import ThletEvaluation.Linux.ClientLog
import ThletEvaluation.Linux.Comparator
import ThletEvaluation.Switch.Unload
import ThletEvaluation.Switch.UserReport
import ThletEvaluation.Shinjuku.ParseData
import ThletEvaluation.Shinjuku.ContextFast
import ThletEvaluation.Shinjuku.ContextSwitch
import ThletEvaluation.Shinjuku.Dispatcher
import ThletEvaluation.Shinjuku.Interleaving
import ThletEvaluation.Shinjuku.Scheduler
import ThletEvaluation.Shinjuku.Mailbox
import ThletEvaluation.Shinjuku.Handshake
import ThletEvaluation.Shinjuku.RoundTrip
import ThletEvaluation.Shinjuku.Custody
import ThletEvaluation.Shinjuku.Ownership
import ThletEvaluation.Shinjuku.Sweep
import ThletEvaluation.Shinjuku.Coroutine
import ThletEvaluation.Shinjuku.Migration
import ThletEvaluation.Shinjuku.Interrupts
import ThletEvaluation.Shinjuku.StalePreemption
import ThletEvaluation.Shinjuku.Categories
import ThletEvaluation.Shinjuku.Preemption
import ThletEvaluation.Shinjuku.Context
import ThletEvaluation.Shinjuku.Boot
import ThletEvaluation.Interrupt.Flags
import ThletEvaluation.Interrupt.Device
import ThletEvaluation.Interrupt.Snapshot
import ThletEvaluation.Interrupt.Pages
import ThletEvaluation.Interrupt.GapLog
import ThletEvaluation.Interrupt.Durations
import ThletEvaluation.Shinjuku.PacketBounds
import ThletEvaluation.Shinjuku.Networker
import ThletEvaluation.Shinjuku.FreshContext
import ThletEvaluation.Shinjuku.SinglePool
import ThletEvaluation.Shinjuku.MempoolLinearized
import ThletEvaluation.Shinjuku.ContextPairs
import ThletEvaluation.Shinjuku.Admission
import ThletEvaluation.Shinjuku.Datastore
import ThletEvaluation.Shinjuku.DatastoreLists
import ThletEvaluation.Shinjuku.DatastoreEnds
import ThletEvaluation.Shinjuku.DatastoreHazards
import ThletEvaluation.Shinjuku.DatastoreCapacity
import ThletEvaluation.Shinjuku.DatastoreRetry
import ThletEvaluation.Shinjuku.Yield
import ThletEvaluation.Shinjuku.YieldSystem
import ThletEvaluation.Shinjuku.Progress
