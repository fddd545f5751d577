import Muduo.BufferDeque
import Muduo.BufferIntegers
import Muduo.AddressAccessors
import Muduo.OutputStream
import Muduo.HalfClose
import Muduo.EpollMirror
import Muduo.TimerArming
import Muduo.TimerCancel
import Muduo.ConnectorStop
import Muduo.EventLoopWakeup
import Muduo.EventLoopThread
import Muduo.EventLoopFunctors
import Muduo.CancelRequest
import Muduo.ServerLife
import Muduo.ClientRetry
import Muduo.LogBacklog
import Muduo.LogRolling
import Muduo.ThreadPoolStop
import Muduo.SendOverloads
import Muduo.ServerDescriptors
import Muduo.ServerTeardown
import Muduo.QueuedWork
import Muduo.LoopTeardown
import Muduo.LogStop
import Muduo.PollerBookkeeping
import Muduo.InterestBits
import Muduo.ConnectionNames
import Muduo.ShortWrites
import Muduo.ScatterRead
import Muduo.PendingOutput
import Muduo.LogNotices
import Muduo.ThreadPoolStart
import Muduo.RollDiscipline
import Muduo.SourceFile
import Muduo.Lib.Printf
import Muduo.Lib.Calendar
import Muduo.TimeStampText
import Muduo.ClientNames
import Muduo.BufferRecycling
import Muduo.CountDownLatch
import Muduo.Acceptor
import Muduo.AcceptorOverload
import Muduo.Lib.RoundRobin
import Muduo.LoopShares
import Muduo.ByteLink
import Muduo.MutexLock
import Muduo.LogPipeline
import Muduo.TimerSchedule
import Muduo.ServerStart
import Muduo.EventLoopRounds
import Muduo.LogDelivery
import Muduo.TaskProgress
import Muduo.ConnectorBackoff
import Muduo.ListeningServer
import Muduo.LogNames
import Muduo.BufferLines
import Muduo.Lib.Simulation
import Muduo.LoopIterations
import Muduo.EchoServer
import Muduo.ConnectorLifetime
import Muduo.RemoveConnector
