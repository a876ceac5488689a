import Libcold.HeapOrder
import Libcold.TimerQueue
import Libcold.TimerMap
import Libcold.TimerHeap
import Libcold.TimerRefinement
import Libcold.ByteOrder
import Libcold.Platform
import Libcold.WebSocketParser
import Libcold.WebSocketChunks
import Libcold.WebSocketWire
import Libcold.Runs
import Libcold.IoWatcher
import Libcold.IoWatcherSlots
import Libcold.IoWatcherRuns
import Libcold.BasicSocket
import Libcold.IoService
import Libcold.TaskCompletion
import Libcold.PointerChain
import Libcold.AsyncMutex
import Libcold.RpcChannel
import Libcold.IoTimeout
import Libcold.IoAwaitable
import Libcold.RpcClient
import Libcold.RpcCodec
import Libcold.Trie
import Libcold.Router
import Libcold.DispatcherServlet
import Libcold.Timers
import Libcold.TimerArming
import Libcold.TimerCancel
import Libcold.WebSocketWriter
import Libcold.SpanCalls
import Libcold.HttpRequestParser
import Libcold.HttpSegmentation
import Libcold.HttpServer
import Libcold.Delimited
import Libcold.HttpCommon
import Libcold.HttpMessage
import Libcold.HttpReplay
import Libcold.HttpRequest
import Libcold.HttpDelivery
import Libcold.HttpUrl
import Libcold.HttpParameters
import Libcold.MutexStages
import Libcold.ConditionVariable
import Libcold.ProducerConsumer
import Libcold.ProducerConsumerInv
import Libcold.ProducerConsumerRuns
import Libcold.NotifyAll
import Libcold.NotifyAllInv
import Libcold.NotifyAllRuns
import Libcold.Backlog
import Libcold.RpcLoop
import Libcold.RpcIds
import Libcold.WebSocketControl
import Libcold.WebSocketPrefix
import Libcold.WebSocketReader
import Libcold.WebSocketClose
import Libcold.WebSocketLifecycle
import Libcold.EdgeTriggered
import Libcold.UdpReceive
import Libcold.Task
import Libcold.WebSocketServer
import Libcold.HttpResponse
import Libcold.HttpFraming
import Libcold.HttpSession
import Libcold.HttpSpelling
import Libcold.HttpCookies
import Libcold.RpcExchange
import Libcold.RpcLength
import Libcold.TimerAssertions
import Libcold.WebSocketRuns
import Libcold.WebSocketLegality
import Libcold.FilterChain
import Libcold.HttpHeaderBlock
import Libcold.SendLoop
import Libcold.LlhttpUrl
import Libcold.StaticFile
import Libcold.HttpConnection
import Libcold.TimerWait
import Libcold.UrlCoding
import Libcold.StringUtils
import Libcold.Crypto
import Libcold.Gregorian
import Libcold.Time
import Libcold.Snprintf
import Libcold.LocalTimeFormatter
import Libcold.LogFormatter
import Libcold.Thread
import Libcold.Logger
import Libcold.LogDelivery
import Libcold.LogDeadlock
import Libcold.LogDurability
import Libcold.IoServiceStop
import Libcold.IoServicePool
import Libcold.SessionIsolation
import Libcold.Acceptor
import Libcold.HttpClient
import Libcold.ServletContext
import Libcold.TimerObjects
import Libcold.HttpWire
