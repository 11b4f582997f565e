import Mmuduo.Lib.Transition
import Mmuduo.Lib.Ring
import Mmuduo.Lib.Posix
import Mmuduo.Lib.BoundedFifo
import Mmuduo.Lib.OrdSet
import Mmuduo.Kfifo.Impl
import Mmuduo.Kfifo.Lemmas
import Mmuduo.Kfifo.Refinement
import Mmuduo.Kfifo.Fd
import Mmuduo.Buffer.Impl
import Mmuduo.Buffer.Refinement
import Mmuduo.Channel
import Mmuduo.EpollPoller.Impl
import Mmuduo.EpollPoller.Agreement
import Mmuduo.TcpConnection.Impl
import Mmuduo.TcpConnection.Lemmas
import Mmuduo.TcpConnection.Outbound
import Mmuduo.TcpConnection.Events
import Mmuduo.TcpConnection.CrossThread
import Mmuduo.TimerQueue.Impl
import Mmuduo.TimerQueue.Invariant
import Mmuduo.TimerQueue.Alarm
import Mmuduo.TimerQueue.Threads
import Mmuduo.TimerQueue.Numbers
import Mmuduo.TimerQueue.Cancel
import Mmuduo.TimerQueue.Identity
import Mmuduo.EventLoop.Impl
import Mmuduo.EventLoop.Lemmas
import Mmuduo.EventLoop.Fifo
import Mmuduo.EventLoop.WakeUp
import Mmuduo.EventLoop.Quit
import Mmuduo.TcpConnection.Threads
import Mmuduo.TcpConnection.Stuck
import Mmuduo.TcpConnection.Inbound
import Mmuduo.TcpConnection.Lifecycle
import Mmuduo.TcpConnection.Shutdown
import Mmuduo.EventLoopThread.Impl
import Mmuduo.EventLoopThread.Quit
import Mmuduo.InetAddress
import Mmuduo.TcpServer.Impl
import Mmuduo.TcpServer.Lemmas
import Mmuduo.TcpServer.Names
import Mmuduo.TcpServer.Table
import Mmuduo.TcpServer.Flow
import Mmuduo.TcpServer.Ownership
import Mmuduo.SocketOps
import Mmuduo.EpollPoller.Interest
import Mmuduo.EpollPoller.Poll
import Mmuduo.EventLoop.Dispatch
import Mmuduo.TcpConnection.Backlog
import Mmuduo.Kfifo.Wrap
import Mmuduo.Kfifo.Mutex
import Mmuduo.TcpServer.Teardown
import Mmuduo.TimerQueue.HandleRead
import Mmuduo.Kfifo.RoundUp
import Mmuduo.Buffer.Memory
import Mmuduo.EventLoopThread.Handshake
import Mmuduo.EventLoopThread.Join
import Mmuduo.EventLoopThreadPool
import Mmuduo.TcpServer.Start
import Mmuduo.TcpServer.RawThis
import Mmuduo.TimerQueue.Schedule
import Mmuduo.TimerQueue.Destroy
import Mmuduo.TcpServer.Sockets
import Mmuduo.TcpServer.AtRest
