import LightAgent.Library.Runs
import LightAgent.Library.Interleaving
import LightAgent.Library.Simulation
import LightAgent.Library.Monitor
import LightAgent.Library.HttpReader
import LightAgent.Library.SortedMap
import LightAgent.Util
import LightAgent.Util.SocketLoops
import LightAgent.LightAgentGateway
import LightAgent.LightAgentGateway.Counters
import LightAgent.LightAgentGateway.Json
import LightAgent.LightAgentGateway.Members
import LightAgent.Epoll
import LightAgent.HttpData.ParseURI
import LightAgent.HttpData.ParseHeaders
import LightAgent.HttpData.HeaderBlock
import LightAgent.HttpData.HeaderFields
import LightAgent.HttpData.Analysis
import LightAgent.HttpData.HandleRead
import LightAgent.HttpData.ContentLength
import LightAgent.HttpData.HeaderNames
import LightAgent.HttpData.HandleConn
import LightAgent.HttpData.Rounds
import LightAgent.HttpData.Recursion
import LightAgent.HttpData.Control
import LightAgent.HttpData.Effects
import LightAgent.HttpData.Registration
import LightAgent.HttpData.Alike
import LightAgent.HttpData.Received
import LightAgent.HttpData.Arrival
import LightAgent.HttpData.Fragmentation
import LightAgent.HttpData.Pipelining
import LightAgent.HttpData.Replies
import LightAgent.HttpData.ResponseStream
import LightAgent.HttpData.BodyFraming
import LightAgent.HttpData.DocumentRoot
import LightAgent.HttpData.RequestLine
import LightAgent.HttpData.ResponseHeads
import LightAgent.HttpData.SelfDelimiting
import LightAgent.HttpData.Rejections
import LightAgent.HttpData.ApiDispatch
import LightAgent.HttpData.BareRequests
import LightAgent.HttpData.CompleteRequests
import LightAgent.HttpData.HeaderSlices
import LightAgent.HttpData.HalfClose
import LightAgent.HttpData.ClientRequests
import LightAgent.HttpData.Service
import LightAgent.HttpData.Conversation
import LightAgent.HttpData.Isolation
import LightAgent.HttpData.FailStop
import LightAgent.HttpData.Traffic
import LightAgent.HttpData.Placement
import LightAgent.HttpData.Counterparts
import LightAgent.TimerLinks
import LightAgent.Reactor
import LightAgent.Reactor.Operations
import LightAgent.Reactor.Descriptors
import LightAgent.TimerExpiry
import LightAgent.Reactor.Timers
import LightAgent.Reactor.Leaks
import LightAgent.Reactor.Arming
import LightAgent.Reactor.FailStop
import LightAgent.Reactor.Noninterference
import LightAgent.Reactor.Lifetimes
import LightAgent.Reactor.Reaping
import LightAgent.Reactor.Confinement
import LightAgent.Reactor.Ownership
import LightAgent.Reactor.Progress
import LightAgent.EventLoop
import LightAgent.EventLoopThread
import LightAgent.Reactor.Handover
import LightAgent.Reactor.Lifecycle
import LightAgent.Reactor.Events
import LightAgent.Reactor.Conversations
import LightAgent.Server
import LightAgent.EventLoop.WakeupChannel
import LightAgent.Reactor.Dispatch
import LightAgent.EventLoopThreadPool
import LightAgent.Base.CountDownLatch
import LightAgent.Base.Logging
import LightAgent.Base.AsyncLogging
import LightAgent.Base.AsyncLogging.Assertions
import LightAgent.Base.LogFile
