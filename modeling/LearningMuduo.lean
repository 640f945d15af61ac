import LearningMuduo.Reactor.EPollMirror
import LearningMuduo.Reactor.Wakeup
import LearningMuduo.Tcp.BufferQueue
import LearningMuduo.Tcp.OutputStream
import LearningMuduo.Tcp.CloseOnce
import LearningMuduo.Tcp.WriteInterest
import LearningMuduo.Timers.TimerRuns
import LearningMuduo.Protobuf.StreamDelivery
import LearningMuduo.Protobuf.ChunkIndependence
import LearningMuduo.Library.ByteOrder
import LearningMuduo.Tcp.BufferInts
import LearningMuduo.Tcp.GracefulShutdown
import LearningMuduo.Timers.CancelFinal
import LearningMuduo.Reactor.PollPoller
import LearningMuduo.Reactor.PollSlots
import LearningMuduo.Reactor.PollersAgree
import LearningMuduo.Logging.AsyncLogging
import LearningMuduo.Logging.LogOrder
import LearningMuduo.Logging.StopFlushes
import LearningMuduo.Tcp.Connector
import LearningMuduo.Tcp.ConnectorAttempts
import LearningMuduo.Tcp.TcpClient
import LearningMuduo.Tcp.ClientStop
import LearningMuduo.Protobuf.StringCodec
import LearningMuduo.Common.FixedBuffer
import LearningMuduo.Logging.LogStream
import LearningMuduo.Logging.BufferBounds
import LearningMuduo.Logging.StopRequest
import LearningMuduo.Logging.IdleLogger
import LearningMuduo.Timers.CancelNamed
import LearningMuduo.Tcp.TcpServer
import LearningMuduo.Tcp.WriteComplete
import LearningMuduo.Reactor.EventLoopThread
import LearningMuduo.Reactor.QuitRequest
import LearningMuduo.Tcp.ConnectionLifetime
import LearningMuduo.Tcp.QueuedWork
import LearningMuduo.Tcp.ServerConnections
import LearningMuduo.Tcp.ServerDestruction
import LearningMuduo.Tcp.ActiveChannels
import LearningMuduo.Tcp.DeferredRemoval
import LearningMuduo.Protobuf.BodyChecks
import LearningMuduo.Protobuf.Corruption
import LearningMuduo.Protobuf.FrameLimit
import LearningMuduo.Reactor.InterestMask
import LearningMuduo.Timers.HandleRead
import LearningMuduo.Socket.InetAddress
import LearningMuduo.Tcp.ConnectionMap
import LearningMuduo.Common.AppendFile
import LearningMuduo.IdleConnection.SortedList
import LearningMuduo.IdleConnection.TimingWheel
import LearningMuduo.Library.Calendar
import LearningMuduo.Logging.LogFile
import LearningMuduo.Logging.LogFileBounds
import LearningMuduo.Common.AppendWrites
import LearningMuduo.Logging.RollSchedule
import LearningMuduo.Tcp.BufferShrink
import LearningMuduo.LogLine.LogStream
import LearningMuduo.Library.Numeral
import LearningMuduo.Logging.IntegerFormat
import LearningMuduo.Reactor.PollBijection
import LearningMuduo.Logging.BufferRecycling
import LearningMuduo.Library.FieldLoop
import LearningMuduo.Library.Varint
import LearningMuduo.Logging.LogPipeline
import LearningMuduo.Protobuf.Dispatcher
import LearningMuduo.Protobuf.MessageRoundTrip
import LearningMuduo.Protobuf.QueryConnections
import LearningMuduo.Reactor.PollReports
import LearningMuduo.Tcp.ConnectionLink
import LearningMuduo.Tcp.ConnectorBackoff
import LearningMuduo.Timers.TimerSchedule
import LearningMuduo.Library.RoundRobin
import LearningMuduo.Library.Slots
import LearningMuduo.Logging.LogFileNames
import LearningMuduo.Tcp.Acceptor
import LearningMuduo.Tcp.AcceptorDescriptors
import LearningMuduo.Tcp.ClientReconnect
import LearningMuduo.Tcp.HighWaterMark
import LearningMuduo.Tcp.ServerStart
import LearningMuduo.Library.TextFields
import LearningMuduo.Logging.LogReader
import LearningMuduo.Logging.LoggedProgram
