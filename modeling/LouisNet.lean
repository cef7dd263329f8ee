import LouisNet.Lib.Cut
import LouisNet.Lib.SortedMap
import LouisNet.Lib.CLib
import LouisNet.Lib.Framing
import LouisNet.Base.Buffer
import LouisNet.Base.BufferRefinement
import LouisNet.Reactor.Channel
import LouisNet.Net.TcpConnection
import LouisNet.Net.TcpConnectionCallbacks
import LouisNet.Net.TcpConnectionOutput
import LouisNet.Net.Connector
import LouisNet.Net.ConnectorOwnership
import LouisNet.Http.Message
import LouisNet.Http.Parser
import LouisNet.Http.ParserStream
import LouisNet.Http.ParserGrammar
import LouisNet.Http.Server
import LouisNet.Http.ServerLoop
import LouisNet.Http.ServerRun
import LouisNet.Http.ServerConnection
import LouisNet.Http.ServerClose
import LouisNet.Http.ServerIsolation
import LouisNet.Http.ServerFraming
import LouisNet.Lib.Run
import LouisNet.Reactor.Poller
import LouisNet.Net.TcpConnectionRules
import LouisNet.Net.TcpConnectionShutdown
import LouisNet.Reactor.EventLoop
import LouisNet.Net.TcpConnectionThreads
import LouisNet.Net.TcpConnectionOvertaking
import LouisNet.Net.TcpServer
import LouisNet.Net.TcpServerRegistry
import LouisNet.Timers.TimerScheduler
import LouisNet.Timers.TimerPlaces
import LouisNet.Timers.TimerIds
import LouisNet.Timers.TimerTable
import LouisNet.Timers.TimerCancel
import LouisNet.Timers.TimerDescriptor
import LouisNet.Timers.TimerFiring
import LouisNet.Timers.TimerExtraction
import LouisNet.Http.ServerContext
import LouisNet.Net.ConnectorChannel
import LouisNet.Base.ThreadPool
import LouisNet.Net.TcpClient
import LouisNet.Lib.Mutex
import LouisNet.Net.Acceptor
import LouisNet.Http.ParserAccounting
import LouisNet.Http.ParserCompletion
import LouisNet.Http.ParserReuse
import LouisNet.Http.ContentLength
import LouisNet.Http.ResponseDecode
import LouisNet.Http.ServerStatusLine
import LouisNet.Base.BufferGrowth
import LouisNet.Base.BufferRead
import LouisNet.Timers.TimerClock
import LouisNet.Lib.EdgeTrigger
import LouisNet.Net.Endpoint
import LouisNet.Net.EndpointStreams
import LouisNet.Net.EndpointAtomic
import LouisNet.Net.EndpointProgress
import LouisNet.Net.Echo
import LouisNet.Net.EchoProgress
import LouisNet.Base.ThreadPoolTasks
import LouisNet.Reactor.EventLoopThreadPool
import LouisNet.Net.TcpServerLoops
import LouisNet.Net.EndpointCallbacks
import LouisNet.Http.HttpEndpoint
import LouisNet.Base.BufferCapacity
import LouisNet.Net.AcceptorListener
import LouisNet.Reactor.PollerDispatch
