import TaskSheduler.Interleaving
import TaskSheduler.RingBuffer
import TaskSheduler.ByteMemory
import TaskSheduler.SegmentLayout
import TaskSheduler.SegmentExact
import TaskSheduler.PosixSharedMemory
import TaskSheduler.QueueFifo
import TaskSheduler.QueueTokens
import TaskSheduler.Task
import TaskSheduler.TaskHistory
import TaskSheduler.RemainingTime
import TaskSheduler.IoOperations
import TaskSheduler.PriorityOrder
import TaskSheduler.PriorityTransparency
import TaskSheduler.PrioritySelection
import TaskSheduler.FastPath
import TaskSheduler.PassProgress
import TaskSheduler.ReorderFailure
import TaskSheduler.CountedQueue
import TaskSheduler.ManagerMachine
import TaskSheduler.ManagerSteps
import TaskSheduler.ReorderAtomicity
import TaskSheduler.SchedulerMachine
import TaskSheduler.SchedulerSteps
import TaskSheduler.StopKeepsTasks
import TaskSheduler.SchedulerProgress
import TaskSheduler.ClientMachine
import TaskSheduler.PutBackRoom
import TaskSheduler.CallFailure
import TaskSheduler.DescriptionPass
import TaskSheduler.ExecuteVerdict
import TaskSheduler.RejectedPriority
import TaskSheduler.HandleCustody
import TaskSheduler.ShmLifecycle
import TaskSheduler.LifecycleSteps
import TaskSheduler.HandleRelease
import TaskSheduler.AttachedQueue
import TaskSheduler.FailedCreate
import TaskSheduler.InputStream
import TaskSheduler.Server
import TaskSheduler.ReceivedCommand
import TaskSheduler.ServerMachine
import TaskSheduler.CommandEntries
import TaskSheduler.StableOrder
import TaskSheduler.SelectionOrder
import TaskSheduler.RoundRobinVisits
import TaskSheduler.PriorityBounds
import TaskSheduler.NewTaskPriority
import TaskSheduler.ExecuteCalls
import TaskSheduler.CompletedTasks
import TaskSheduler.CpuUsage
import TaskSheduler.CommandGrammar
import TaskSheduler.SegmentMachine
import TaskSheduler.Simulation
import TaskSheduler.SegmentCopies
import TaskSheduler.SegmentRaces
import TaskSheduler.ServerLedger
import TaskSheduler.EntryInvariants
import TaskSheduler.NamedQueues
import TaskSheduler.ServiceErrors
import TaskSheduler.CommandFates
import TaskSheduler.LoneThread
import TaskSheduler.TurnRuns
import TaskSheduler.Conversations
import TaskSheduler.HandleOwners
import TaskSheduler.SocketCustody
import TaskSheduler.PriorityDecay
import TaskSheduler.TurnOrder
import TaskSheduler.WholeProgram
