import Sylar.ByteArrayCodec
import Sylar.ByteArrayFlat
import Sylar.EventDispatch
import Sylar.FiberExclusion
import Sylar.HookTimeout
import Sylar.HttpKeepAlive
import Sylar.TimerWake
import Sylar.ByteArrayRoundTrip
import Sylar.ByteArrayZigzag
import Sylar.FdTable
import Sylar.HookClose
import Sylar.HookNonblock
import Sylar.HttpChunked
import Sylar.HttpConnectionPool
import Sylar.HttpRequestText
import Sylar.HttpRoundTrip
import Sylar.SchedulerQueue
import Sylar.SchedulerStopping
import Sylar.StreamTransfer
import Sylar.HttpConnectionClose
import Sylar.HttpParamLazy
import Sylar.HttpQueryCodec
import Sylar.LoggerFormat
import Sylar.PoolCapacity
import Sylar.PoolExchange
import Sylar.PoolFreshness
import Sylar.TimerExpiry
import Sylar.TimerInactive
import Sylar.FdFreshness
import Sylar.HttpFraming
import Sylar.ByteArrayBuffers
import Sylar.ByteArrayFile
import Sylar.HookSleep
import Sylar.IdleWait
import Sylar.TimerEarly
import Sylar.FdIndex
import Sylar.HookConnect
import Sylar.HookConnectExact
import Sylar.AddressMask
import Sylar.AddressText
import Sylar.UrlEscape
import Sylar.HttpParamSplit
import Sylar.HttpMethodToken
import Sylar.HttpContentLength
import Sylar.HttpBodyLimit
import Sylar.HttpChunkSize
import Sylar.ByteArrayAtomic
import Sylar.AddressOrder
import Sylar.AddressLookup
import Sylar.StreamFixSize
import Sylar.ServletDispatch
import Sylar.UriMachine
import Sylar.Lib.Grammar
import Sylar.Lib.Recogniser
import Sylar.UriGrammar
import Sylar.Uri
import Sylar.UriParts
import Sylar.UriRecognise
import Sylar.Lib.Outline
import Sylar.UriOutline
import Sylar.UriRun
import Sylar.UriComponents
import Sylar.UriMark
import Sylar.UriLiteral
import Sylar.UriPrint
import Sylar.LogPattern
import Sylar.LogPatternPieces
import Sylar.LogPatternRefusal
import Sylar.LogPatternOrder
import Sylar.TcpServer
import Sylar.TcpServerRun
import Sylar.HttpResponseText
import Sylar.HttpResponseRoundTrip
import Sylar.HttpServer
import Sylar.HttpDoRequest
import Sylar.StreamMessages
import Sylar.SocketDescriptors
import Sylar.LogDelivery
