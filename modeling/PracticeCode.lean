import PracticeCode.Lib.Run
import PracticeCode.Lib.Slots
import PracticeCode.Server3.NoStall
import PracticeCode.Server3.Owner
import PracticeCode.Server3.Order
import PracticeCode.Server31.Isolation
import PracticeCode.Server31.Order
import PracticeCode.Server31.Tokens
import PracticeCode.Server31.Release
import PracticeCode.Server31.Availability
import PracticeCode.Server31.Tasks
import PracticeCode.Server31.Payload
import PracticeCode.EpollServer.NoStall
import PracticeCode.EpollTcpServer.Descriptors
import PracticeCode.EpollTcpServer.Echo
import PracticeCode.EpollTcpServer.Delivery
import PracticeCode.EpollTcpServer.Stop
import PracticeCode.EpollTcpServer.Lifecycle
import PracticeCode.EpollTcpServer.Atomic
import PracticeCode.EpollTcpServer.AcceptLoop
import PracticeCode.WorkerPool
import PracticeCode.ConditionVariable
import PracticeCode.BlockingServer
import PracticeCode.EchoServers
import PracticeCode.Server2.Refinement
import PracticeCode.SelectPoll
import PracticeCode.PollServer.Iterators
import PracticeCode.SelectServer.OnePass
import PracticeCode.SelectServer.FdSets
import PracticeCode.NonblockingServer.Rounds
import PracticeCode.NonblockingClient
import PracticeCode.KernelAio.BatchContent
import PracticeCode.KernelAio.EventfdRead
import PracticeCode.KernelAio.Callbacks
import PracticeCode.SyncIO
import PracticeCode.PointerTest.Reclaim
import PracticeCode.PointerTest.CopyAssign
import PracticeCode.Regex2.Apostrophes
import PracticeCode.SpinLock
import PracticeCode.MutexLock
import PracticeCode.QueueHistories
import PracticeCode.Server3.PoolRuns
import PracticeCode.Server3.Settles
import PracticeCode.Server31.Settles
import PracticeCode.MultiplexClient.Passes
import PracticeCode.Server1.Streams
import PracticeCode.Server2.Clients
import PracticeCode.MultiplexClient.EpollPasses
import PracticeCode.MultiplexClient.PollInEpoll
import PracticeCode.EpollTcpClient.Echo
