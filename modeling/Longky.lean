import Longky.Net.BufferDeque
import Longky.Net.TcpOutput
import Longky.Net.TcpLife
import Longky.Net.TcpHalfClose
import Longky.Net.TimerCancel
import Longky.Net.EventLoop
import Longky.Base.ThreadPool
import Longky.Base.AsyncLogging
import Longky.Cgi.Record
import Longky.Cgi.Params
import Longky.Cgi.Requests
import Longky.Cgi.ParamsFormat
import Longky.Cgi.Respond
import Longky.Cgi.CgiServer
import Longky.Web.HeaderIsolation
import Longky.Web.ResponseBuffer
import Longky.Web.IdleWheel
import Longky.Web.ConfigFile
import Longky.Web.RedisCache
import Longky.Web.Paths
import Longky.Web.ResponseOrder
import Longky.Web.Slices
import Longky.Net.PolledConnection
import Longky.Net.PollPoller
import Longky.Net.TcpClient
import Longky.Http.HttpServer
import Longky.Monitor.HeartBeat
import Longky.Web.Accesses
import Longky.Web.ResponseFraming
import Longky.Web.FileStream
import Longky.Web.OneResponse
import Longky.Web.Decoding
import Longky.Web.HeaderAgreement
import Longky.Lib.LastWrite
import Longky.Web.CacheFill
import Longky.Web.EntryLife
import Longky.Net.EventLoopThreadPool
import Longky.Web.LoopWheels
import Longky.Web.ConnectionLimit
import Longky.Cgi.CodecChecks
import Longky.Cgi.MalformedParams
import Longky.Http.RequestLine
import Longky.Http.HeadParsing
import Longky.Http.ParseLoop
import Longky.Http.Assertions
import Longky.Http.KeepAlive
import Longky.Net.PollIndex
import Longky.Net.ClosedConnection
import Longky.Net.ServerDestroy
import Longky.Net.TcpServer
import Longky.Net.TimerArming
import Longky.Net.EventLoopThread
import Longky.Base.PoolStop
import Longky.Lib.MachineInt
import Longky.Lib.Gregorian
import Longky.Base.Date
import Longky.Base.UtcTime
import Longky.Lib.LowerBound
import Longky.Base.LocalTime
import Longky.Lib.FileReader
import Longky.Base.ZoneFile
import Longky.Base.Convert
import Longky.Base.LogTime
import Longky.Base.Logging
import Longky.Base.LogFile
import Longky.Net.ScatterRead
import Longky.Net.NetworkOrder
import Longky.Web.Reconnect
import Longky.Web.Compressor
import Longky.Net.TcpBytes
import Longky.Net.TcpStream
import Longky.Net.TcpEndOfFile
import Longky.Lib.Descriptors
import Longky.Cgi.ExecuteCgi
import Longky.Cgi.ScriptRuns
import Longky.Lib.Mailboxes
import Longky.Net.ServerLoops
import Longky.Lib.Slots
import Longky.Net.Acceptor
import Longky.Base.LogPipeline
import Longky.Net.TcpOnward
import Longky.Http.HttpExchange
import Longky.Net.LoopDispatch
import Longky.Net.TimerFiring
import Longky.Base.CountDownLatch
import Longky.Base.ThreadStart
import Longky.Net.RoundRobin
import Longky.Net.TcpNotices
import Longky.Net.TcpReports
import Longky.Net.ClientDestroy
