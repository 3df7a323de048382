import CoContext.Mutex
import CoContext.Placement
import CoContext.MutexInvariant
import CoContext.MutexSafety
import CoContext.ConditionVariable
import CoContext.ConditionVariableInvariant
import CoContext.ConditionVariableSafety
import CoContext.ConditionVariableNotification
import CoContext.CountingSemaphore
import CoContext.CountingSemaphoreInvariant
import CoContext.CountingSemaphoreSafety
import CoContext.ConditionVariableMutex
import CoContext.ConditionVariableMutexInvariant
import CoContext.ConditionVariableMutexSafety
import CoContext.ConditionVariableMutexWalk
import CoContext.ConditionVariableMutexWalkSafety
import CoContext.Ranks
import CoContext.WhenAny
import CoContext.WhenAnyInvariant
import CoContext.WhenAnySafety
import CoContext.WhenSome
import CoContext.WhenSomeInvariant
import CoContext.WhenSomeSafety
import CoContext.TypeList
import CoContext.WhenAll
import CoContext.WhenAllOffset
import CoContext.WhenAllInvariant
import CoContext.WhenAllSafety
import CoContext.ChannelStorage
import CoContext.Channel
import CoContext.ChannelSafety
import CoContext.ChannelContext
import CoContext.ChannelContextSafety
import CoContext.SequentialCalls
import CoContext.Rendezvous
import CoContext.RendezvousCalls
import CoContext.RendezvousInvariant
import CoContext.RendezvousSafety
import CoContext.SharedTask
import CoContext.SharedTaskInvariant
import CoContext.SharedTaskSafety
import CoContext.RequestRings
import CoContext.Worker
import CoContext.WorkerTransition
import CoContext.WorkerAccounting
import CoContext.WorkerBlocking
import CoContext.WorkerExpression
import CoContext.WorkerTracking
import CoContext.WorkerQuiescence
import CoContext.WorkerOrder
import CoContext.WorkerSafety
import CoContext.WorkerChain
import CoContext.CursorRing
import CoContext.ReadyQueue
import CoContext.ChannelContextRing
import CoContext.ChannelContextRingSafety
import CoContext.SubmissionQueue
import CoContext.WorkerRing
import CoContext.WorkerRingSafety
import CoContext.SharedResult
import CoContext.MsgRing
import CoContext.EventFd
import CoContext.SharedTaskWalk
import CoContext.NotifyAllWalk
import CoContext.StopSource
import CoContext.StopSourceCounting
import CoContext.StopSourceSafety
import CoContext.DoublyLinkedList
import CoContext.StopCallback
import CoContext.StopCallbackInvariant
import CoContext.StopCallbackTransition
import CoContext.StopCallbackLifetime
import CoContext.StopCallbackSafety
import CoContext.RecordHeap
import CoContext.ConditionVariableQueue
import CoContext.ConditionVariableQueueSafety
import CoContext.CountingSemaphoreQueue
import CoContext.CountingSemaphoreQueueSafety
import CoContext.PredicateWait
import CoContext.PredicateWaitSafety
import CoContext.Unwinding
import CoContext.ChannelUnwinding
import CoContext.RendezvousUnwinding
import CoContext.SlotLifetimes
import CoContext.ChannelLifetime
import CoContext.IntegerArithmetic
import CoContext.Spsc
import CoContext.SpscSafety
import CoContext.Chrono
import CoContext.ChronoTicks
import CoContext.TimeCast
import CoContext.TimeCastSplit
import CoContext.TimeCastSafety
import CoContext.UniqueHandles
import CoContext.TaskFrame
import CoContext.TaskFrameSafety
import CoContext.MaximalRuns
import CoContext.TypeListSplit
import CoContext.RepeatUntil
import CoContext.SpscWord
import CoContext.Procedures
import CoContext.Generator
import CoContext.GeneratorSafety
import CoContext.GeneratorIteration
import CoContext.EntryReorder
import CoContext.EntryReorderSafety
import CoContext.CompletionQueue
import CoContext.CompletionQueueSafety
import CoContext.LazyProcedures
import CoContext.TaskAwait
import CoContext.TaskAwaitSafety
import CoContext.TaskAwaitEvaluation
import CoContext.TaskAwaitRuns
import CoContext.IoContext
import CoContext.IoContextSafety
import CoContext.IoContextWorkers
import CoContext.RingSetup
import CoContext.RingSetupSafety
