import LightAgent.Library.SortedMap
import LightAgent.LightAgentGateway
import LightAgent.Util

/-!
# The state of a connection and of its loop

The records of `HttpData`, `Channel`, `TimerNode` and `Epoll`. Objects that other
objects point to are named by numbers: a connection by its `ConnId`, which also
names its only channel, and a timer node by its `TimerId`. A shared or weak
pointer is such a name. `Conn` is what the handlers of one connection work on.
-/
namespace LightAgent

open Library

abbrev ConnId := Nat
abbrev TimerId := Nat
abbrev LoopId := Nat
abbrev Fd := Nat

/-! ### Enumerations of HttpData.h -/

inductive ProcessState where
  | parseUri | parseHeaders | recvBody | analysis | finish
  deriving DecidableEq, Repr

inductive URIState where
  | again | error | success
  deriving DecidableEq, Repr

/-- `thrown` is no value of the source: an exception has left the call. -/
inductive HeaderState where
  | success | again | error | thrown
  deriving DecidableEq, Repr

inductive AnalysisState where
  | success | error
  deriving DecidableEq, Repr

inductive ParseState where
  | start | key | colon | spacesAfterColon | value | cr | lf | endCr | endLf
  deriving DecidableEq, Repr

inductive ConnectionState where
  | connected | disconnecting | disconnected
  deriving DecidableEq, Repr

inductive HttpMethod where
  | post | get | head
  deriving DecidableEq, Repr

inductive HttpVersion where
  | http10 | http11
  deriving DecidableEq, Repr

/-! ### Event masks -/

abbrev Events := UInt32

def EPOLLIN : Events := 0x001
def EPOLLPRI : Events := 0x002
def EPOLLOUT : Events := 0x004
def EPOLLERR : Events := 0x008
def EPOLLHUP : Events := 0x010
def EPOLLRDHUP : Events := 0x2000
def EPOLLONESHOT : Events := 0x40000000
def EPOLLET : Events := 0x80000000

def DEFAULT_EVENT : Events := EPOLLIN ||| EPOLLET ||| EPOLLONESHOT

/-- `if (events & mask)` -/
def Events.has (events mask : Events) : Bool := events &&& mask != 0

/-! ### Records -/

structure Channel where
  events_ : Events
  revents_ : Events
  lastEvents_ : Events
  holder_ : Option ConnId
  deriving DecidableEq, Repr

abbrev HeaderMap := SortedMap Bytes Bytes

/-- `HttpData`, with the address of the object in `this`. -/
structure HttpData where
  this : ConnId
  loop_ : LoopId
  channel_ : Channel
  fd_ : Fd
  inBuffer_ : Bytes
  outBuffer_ : Bytes
  error_ : Bool
  connectionState_ : ConnectionState
  method_ : HttpMethod
  HTTPVersion_ : HttpVersion
  fileName_ : Bytes
  nowReadPos_ : Nat
  state_ : ProcessState
  hState_ : ParseState
  keepAlive_ : Bool
  headers_ : HeaderMap
  timer_ : Option TimerId
  deriving DecidableEq

/-- The constructor, followed by `setHolder` as `handNewConn` calls it. -/
def HttpData.new (this : ConnId) (loop : LoopId) (connfd : Fd) : HttpData where
  this := this
  loop_ := loop
  channel_ := { events_ := 0, revents_ := 0, lastEvents_ := 0, holder_ := some this }
  fd_ := connfd
  inBuffer_ := []
  outBuffer_ := []
  error_ := false
  connectionState_ := .connected
  method_ := .get
  HTTPVersion_ := .http11
  fileName_ := []
  nowReadPos_ := 0
  state_ := .parseUri
  hState_ := .start
  keepAlive_ := false
  headers_ := .empty
  timer_ := none

structure TimerNode where
  id : TimerId
  deleted_ : Bool
  expiredTime_ : Nat
  SPHttpData : Option ConnId
  deriving DecidableEq, Repr

/-- `TimerManager`. `history` records every timeout that was set, the latest first;
no code reads it. -/
structure TimerManager where
  timerNodeQueue : List TimerNode
  nextId : TimerId
  history : List (ConnId × TimerId)
  deriving DecidableEq, Repr

/-- What the kernel holds for one descriptor of an epoll instance. -/
structure Registration where
  mask : Events
  enabled : Bool
  deriving DecidableEq, Repr

/-- `Epoll`, with the kernel side of its epoll instance in `interest`. -/
structure Epoll where
  fd2chan_ : Fd → Option ConnId
  fd2http_ : Fd → Option ConnId
  timerManager_ : TimerManager
  interest : Fd → Option Registration

def Epoll.new : Epoll := ⟨fun _ => none, fun _ => none, ⟨[], 0, []⟩, fun _ => none⟩

structure Timeval where
  tv_sec : Nat
  tv_usec : Nat
  deriving DecidableEq, Repr

/-- The kernel as one handler meets it: the results its calls will give, and what has
come of them (bytes the socket took, calls made to the gateway, requests analysed). -/
structure Wire where
  reads : List ReadResult
  writes : List WriteResult
  now : Timeval
  epollCtl : Bool
  sent : Bytes
  calls : List LightAgentGateway.Request
  served : Nat
  deriving DecidableEq

def Wire.idle : Wire := ⟨[], [], ⟨0, 0⟩, true, [], [], 0⟩

/-- What the kernel does in the course of one handler. -/
structure Arrival where
  reads : List ReadResult
  writes : List WriteResult
  now : Timeval
  epollCtl : Bool
  deriving DecidableEq

def Wire.meets (wire : Wire) (a : Arrival) : Wire :=
  { wire with reads := a.reads, writes := a.writes, now := a.now, epollCtl := a.epollCtl }

/-- The connection whose handler runs, the kernel, and the poller of its loop. -/
structure Conn where
  http : HttpData
  wire : Wire
  epoll : Epoll

/-! ### What requests are answered from -/

/-- A file as `stat` and then `open` and `mmap` of its `st_size` bytes find it. -/
structure FileStat where
  st_size : Nat
  opened : Bool
  mapped : Option { data : Bytes // data.length = st_size }

/-- Answers from outside the connection: the file system and the gateway's view for the
n-th request that is analysed, and the memory beside a string buffer. The counters in the view are
what that request finds of those of the process, which other connections count up as well. -/
structure World where
  fs : Nat → Bytes → Option FileStat
  gateway : Nat → LightAgentGateway.View
  outside : Int → UInt8

/-- A world without files, in which the gateway knows nothing of its surroundings. -/
def World.bare : World where
  fs := fun _ _ => none
  gateway := fun _ => ⟨none, none, [], 0, 0, 0⟩
  outside := fun _ => 0

end LightAgent
