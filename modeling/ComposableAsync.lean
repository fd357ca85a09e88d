import ComposableAsync.Foundations.Machine
import ComposableAsync.Foundations.PartialChain
import ComposableAsync.Foundations.Computation
import ComposableAsync.Foundations.Footprint
import ComposableAsync.Concurrent.QueueNode
import ComposableAsync.Concurrent.MpscOrder
import ComposableAsync.Concurrent.SimplifiedEventCount
import ComposableAsync.Concurrent.BlockingMpscQueue
import ComposableAsync.Concurrent.SpinningMpscQueue
import ComposableAsync.Concurrent.DeliveryOrder
import ComposableAsync.Concurrent.Handshake
import ComposableAsync.Concurrent.NoLostWakeup
import ComposableAsync.Concurrent.QueueHistory
import ComposableAsync.Concurrent.QueueProgress
import ComposableAsync.Concurrent.WorkItem
import ComposableAsync.Concurrent.Fiber
import ComposableAsync.Concurrent.FiberEffect
import ComposableAsync.Concurrent.FiberShutdown
import ComposableAsync.Concurrent.FiberContinuations
import ComposableAsync.Concurrent.FiberService
import ComposableAsync.Resilient.CircuitBreakerDispatcher
import ComposableAsync.Resilient.BreakerMachine
import ComposableAsync.Resilient.BreakerCounter
import ComposableAsync.Resilient.BreakerOpenPeriod
import ComposableAsync.Resilient.BreakerHalfOpen
import ComposableAsync.Resilient.BreakerPolicy
import ComposableAsync.Core.Dispatcher
import ComposableAsync.Core.DispatcherThen
import ComposableAsync.Core.DispatcherFootprint
import ComposableAsync.Resilient.RetryDispatcher
import ComposableAsync.Resilient.DispatcherTree
import ComposableAsync.Resilient.DispatcherClone
import ComposableAsync.Resilient.PolicyBuilders
import ComposableAsync.Resilient.BuiltDispatchers
import ComposableAsync.Resilient.RetryLoad
import ComposableAsync.Core.ComposableAsyncDisposable
import ComposableAsync.Factory.ProxyFactory
import ComposableAsync.Flow.BackBone
import ComposableAsync.Concurrent.CancellableDo
import ComposableAsync.Concurrent.QueueDisposal
import ComposableAsync.Concurrent.QueueShutdown
import ComposableAsync.Concurrent.ScheduledTasks
import ComposableAsync.Concurrent.FiberAtomic
import ComposableAsync.Foundations.Loop
import ComposableAsync.Resilient.RetryTurns
import ComposableAsync.Resilient.RetryScript
import ComposableAsync.Resilient.RetryWaits
import ComposableAsync.Resilient.RetryBuilder
import ComposableAsync.Resilient.OpenAnswers
import ComposableAsync.Concurrent.CancellableEnds
import ComposableAsync.Concurrent.ThreadPoolFiber
import ComposableAsync.Foundations.TypeExpr
import ComposableAsync.Factory.DispatcherBehaviour
import ComposableAsync.Foundations.PartialComputation
import ComposableAsync.Foundations.CancellationToken
import ComposableAsync.Flow.Pipeline
import ComposableAsync.Flow.TransformChain
import ComposableAsync.Factory.InvocationOnDispatcher
import ComposableAsync.Asp.DispatcherExtension
import ComposableAsync.Concurrent.PermitAccounting
import ComposableAsync.Foundations.Linearization
import ComposableAsync.Foundations.Fairness
import ComposableAsync.Concurrent.FiberOrder
import ComposableAsync.Concurrent.FiberSegments
import ComposableAsync.Concurrent.FiberOutcome
import ComposableAsync.Concurrent.FiberActor
import ComposableAsync.Concurrent.FiberTermination
import ComposableAsync.Concurrent.FiberLiveness
import ComposableAsync.Foundations.Spacing
import ComposableAsync.Resilient.BreakerTraffic
import ComposableAsync.Concurrent.FiberAnswers
import ComposableAsync.Concurrent.TaskSchedulerFiber
import ComposableAsync.Foundations.Attempts
import ComposableAsync.Resilient.RetryNesting
import ComposableAsync.Concurrent.SynchronizationContextFiber
import ComposableAsync.Concurrent.FiberSend
import ComposableAsync.Concurrent.SpinningProgress
import ComposableAsync.Concurrent.SpinningAtomic
import ComposableAsync.Flow.Announcements
