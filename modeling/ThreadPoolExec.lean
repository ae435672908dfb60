import ThreadPoolExec.TaskQueue.PriorityUnbounded
import ThreadPoolExec.TaskQueue.PriorityLifoSem
import ThreadPoolExec.TaskQueue.Agreement
import ThreadPoolExec.BoundedFifo
import ThreadPoolExec.TurnCells
import ThreadPoolExec.MPMCQueue.Slots
import ThreadPoolExec.MPMCQueue.StaticProperties
import ThreadPoolExec.MPMCQueue.StaticFailures
import ThreadPoolExec.MPMCQueue.Sequential
import ThreadPoolExec.MPMCQueue.ClosedArrays
import ThreadPoolExec.MPMCQueue.DynamicProperties
import ThreadPoolExec.MPMCQueue.TicketPromises
import ThreadPoolExec.MPMCQueue.DynamicFailures
import ThreadPoolExec.MPMCQueue.DynamicSequential
import ThreadPoolExec.Baton
import ThreadPoolExec.KeepAlive
import ThreadPoolExec.Pool.Capacity
import ThreadPoolExec.Pool.Controller
import ThreadPoolExec.Pool.Shutdown
import ThreadPoolExec.Pool.Observers
import ThreadPoolExec.Pool.Staff
import ThreadPoolExec.Pool.GetPoolStats
import ThreadPoolExec.ArrivalOrder
import ThreadPoolExec.TaskQueue.PriorityLifoSemSequential
import ThreadPoolExec.MPMCQueue.StaticPromises
import ThreadPoolExec.MPMCQueue.DynamicPromises
import ThreadPoolExec.MPMCQueue.SlotAddressing
import ThreadPoolExec.BatonReady
import ThreadPoolExec.KeepAliveHandles
import ThreadPoolExec.Pool.WorkerProvider
import ThreadPoolExec.Pool.QueueObservers
import ThreadPoolExec.CounterSnapshot
import ThreadPoolExec.TaskQueue.BoundedSize
import ThreadPoolExec.TaskQueue.SemaphoreDrift
import ThreadPoolExec.MPMCQueue.Sizing
import ThreadPoolExec.MPMCQueue.DynamicSizing
import ThreadPoolExec.MPMCQueue.ElementLifetime
import ThreadPoolExec.Pool.ObserverBalance
import ThreadPoolExec.BinarySearch
import ThreadPoolExec.Pool.ThreadList
import ThreadPoolExec.Pool.ThreadListIntegrity
import ThreadPoolExec.Pool.JoinDrain
import ThreadPoolExec.Pool.Sleepers
import ThreadPoolExec.Pool.Stranding
import ThreadPoolExec.Quiescence
import ThreadPoolExec.MPMCQueue.StaticProgress
import ThreadPoolExec.MPMCQueue.DynamicProgress
import ThreadPoolExec.Pool.StoppedThreadQueue
import ThreadPoolExec.BatonLifetimes
import ThreadPoolExec.ExecutorBlockingGuard
import ThreadPoolExec.Pool.RunTask
import ThreadPoolExec.Pool.Rest
import ThreadPoolExec.Pool.RemainingWork
