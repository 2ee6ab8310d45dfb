import LightAgent.HttpData.Returns
import LightAgent.Library.Runs

/-!
# Reactor: the accepting loop and the loops of the clients

Every loop runs `EventLoop::loop` over its own poller; `handNewConn` makes connections and
queues their `newEvent`. A step is what one thread does between two points where another
one can see its work: the hand-out of events, one handler, one functor, one timer node.
An `HttpData` lives as long as a table entry, a timer node, a functor or `req_info` refers
to it, and its descriptor is closed with it. The channels of the loop itself (wakeup and
listening descriptor) stand in no table here: their descriptors are never closed.
-/
namespace LightAgent

open Library Function

def MAXFDS : Nat := 100000

/-- An `HttpData` that has not been destroyed, with what its socket has seen. -/
structure Client where
  http : HttpData
  wire : Wire
  deriving DecidableEq

/-- The connection as its handler meets it. -/
def Client.conn (cl : Client) (a : Arrival) (epoll : Epoll) : Conn :=
  ⟨cl.http, cl.wire.meets a, epoll⟩

/-- Where a loop stands in `EventLoop::loop`. -/
inductive LoopPoint where
  /-- in `Epoll::poll` -/
  | polling
  /-- `for (auto& it : ret) it->handleEvents();`, with what is left of `ret` -/
  | handling (ret : List ConnId)
  /-- `doPendingFunctors`, with the functors it has run and those it has to run -/
  | functors (done rest : List ConnId)
  /-- `handleExpiredEvent` -/
  | expiring
  deriving DecidableEq, Repr

/-- The channels of `ret` still to be handled. -/
def LoopPoint.ret : LoopPoint → List ConnId
  | .handling ret => ret
  | _ => []

/-- The functors of the vector `doPendingFunctors` works on. -/
def LoopPoint.bound : LoopPoint → List ConnId
  | .functors done rest => done ++ rest
  | _ => []

/-- The functors still to be run. -/
def LoopPoint.waiting : LoopPoint → List ConnId
  | .functors _ rest => rest
  | _ => []

/-- A functor is `newEvent` of a connection, and holds it. -/
structure Loop where
  epoll : Epoll
  pendingFunctors_ : List ConnId
  point : LoopPoint

structure Reactor where
  conns : ConnId → Option Client
  nextConn : ConnId
  loops : LoopId → Loop
  /-- the descriptors of clients that are open -/
  isOpen : Fd → Bool
  /-- the local of `handNewConn` -/
  req_info : Option ConnId

/-- What `epoll_wait` reports of one descriptor. -/
structure Ready where
  readable : Bool
  writable : Bool
  failed : Bool
  hungUp : Bool
  deriving DecidableEq, Repr

def Ready.events (ready : Ready) : Events :=
  (if ready.readable then EPOLLIN else 0) ||| (if ready.writable then EPOLLOUT else 0) |||
    (if ready.failed then EPOLLERR else 0) ||| (if ready.hungUp then EPOLLHUP else 0)

/-- Something is reported, and of what has to be asked for only what was. -/
structure Ready.Within (ready : Ready) (mask : Events) : Prop where
  some_ : ready.readable || ready.writable || ready.failed || ready.hungUp
  readable : ready.readable → mask.has EPOLLIN
  writable : ready.writable → mask.has EPOLLOUT

instance (ready : Ready) (mask : Events) : Decidable (ready.Within mask) :=
  decidable_of_iff ((ready.readable || ready.writable || ready.failed || ready.hungUp) ∧
      (ready.readable → mask.has EPOLLIN) ∧ (ready.writable → mask.has EPOLLOUT))
    ⟨fun ⟨any, readable, writable⟩ => ⟨any, readable, writable⟩,
      fun ⟨any, readable, writable⟩ => ⟨any, readable, writable⟩⟩

/-- `setRevents` and `setEvents(0)` on the channel. -/
def Client.handOut (cl : Client) (ready : Ready) : Client :=
  { cl with http := { cl.http with
    channel_ := { cl.http.channel_ with revents_ := ready.events, events_ := 0 } } }

namespace Reactor

/-- Before any connection. -/
def new : Reactor where
  conns := fun _ => none
  nextConn := 0
  loops := fun _ => ⟨.new, [], .polling⟩
  isOpen := fun _ => false
  req_info := none

def setPoint (r : Reactor) (ℓ : LoopId) (point : LoopPoint) : Reactor :=
  { r with loops := update r.loops ℓ { r.loops ℓ with point := point } }

def setEpoll (r : Reactor) (ℓ : LoopId) (epoll : Epoll) : Reactor :=
  { r with loops := update r.loops ℓ { r.loops ℓ with epoll := epoll } }

/-- The block of `queueInLoop` under `mutex_`, with `newEvent` of the connection. What `wakeup` does
behind it is part of what a `poll` may find. -/
def queueInLoop (r : Reactor) (ℓ : LoopId) (c : ConnId) : Reactor :=
  let loop := r.loops ℓ
  { r with loops := update r.loops ℓ { loop with
      pendingFunctors_ := loop.pendingFunctors_ ++ [c] } }

/-- What a handler of the connection leaves behind. -/
def store (r : Reactor) (c : ConnId) (s : Conn) : Reactor :=
  { r.setEpoll s.http.loop_ s.epoll with conns := update r.conns c (some ⟨s.http, s.wire⟩) }

/-- A handler of a connection, called through a pointer to it; undefined once it is destroyed. -/
def call (r : Reactor) (c : ConnId) (a : Arrival) (handler : Conn → Conn) : Option Reactor :=
  (r.conns c).map fun cl => r.store c (handler (cl.conn a (r.loops cl.http.loop_).epoll))

/-- Some `shared_ptr` refers to the connection. -/
def held (r : Reactor) (c : ConnId) (h : HttpData) : Prop :=
  let loop := r.loops h.loop_
  loop.epoll.fd2http_ h.fd_ = some c ∨
    (∃ node ∈ loop.epoll.timerManager_.timerNodeQueue, node.SPHttpData = some c) ∨
    c ∈ loop.pendingFunctors_ ∨ c ∈ loop.point.bound ∨ r.req_info = some c

instance (r : Reactor) (c : ConnId) (h : HttpData) : Decidable (r.held c h) :=
  inferInstanceAs (Decidable (_ ∨ _))

/-- `~HttpData` where the last reference has gone: it closes the descriptor, and the
kernel forgets the registration. -/
def release (r : Reactor) (c : ConnId) : Reactor :=
  match r.conns c with
  | none => r
  | some cl =>
    if r.held c cl.http then r
    else
      let epoll := (r.loops cl.http.loop_).epoll
      { r.setEpoll cl.http.loop_ { epoll with
          interest := update epoll.interest cl.http.fd_ none } with
        conns := update r.conns c none
        isOpen := update r.isOpen cl.http.fd_ false }

/-! ### Steps -/

inductive Label where
  /-- `accept` returns this descriptor, and `getNextLoop` that loop, up to the push of
  `queueInLoop` -/
  | accept (fd : Fd) (ℓ : LoopId) (nonBlocking : Bool)
  /-- `wakeup` of that loop, and `req_info` goes out of scope -/
  | accepted
  /-- `woken`: the wakeup or the listening channel is active too -/
  | poll (ℓ : LoopId) (events : List (Fd × Ready)) (woken : Bool)
  | handle (ℓ : LoopId) (a : Arrival)
  | startFunctors (ℓ : LoopId)
  | runFunctor (ℓ : LoopId) (a : Arrival)
  | endFunctors (ℓ : LoopId)
  /-- `handleExpiredEvent` pops this node -/
  | expire (ℓ : LoopId) (id : TimerId) (a : Arrival)
  | endExpire (ℓ : LoopId) (now : Timeval)
  deriving DecidableEq

/-- One turn of the loop of `handNewConn`, which descriptor 0 ends. -/
def acceptConn (r : Reactor) (fd : Fd) (ℓ : LoopId) (nonBlocking : Bool) : Reactor :=
  if fd ≥ MAXFDS then r
  else
    let r := { r with isOpen := update r.isOpen fd true }
    if fd = 0 ∨ nonBlocking = false then r
    else
      let c := r.nextConn
      { r.queueInLoop ℓ c with
        conns := update r.conns c (some ⟨.new c ℓ fd, .idle⟩)
        nextConn := c + 1
        req_info := some c }

/-- What the kernel may report of the poller: enabled registrations, each once. -/
def reports (interest : Fd → Option Registration) (events : List (Fd × Ready)) : Prop :=
  (events.map (·.1)).Nodup ∧ ∀ e ∈ events, ∃ reg ∈ interest e.1, reg.enabled ∧ e.2.Within reg.mask

instance (interest : Fd → Option Registration) (events : List (Fd × Ready)) :
    Decidable (reports interest events) :=
  inferInstanceAs (Decidable (_ ∧ _))

/-- The registration behind one event: `EPOLLONESHOT` disables it. -/
def Registration.fire (reg : Registration) : Registration :=
  { reg with enabled := reg.enabled && !reg.mask.has EPOLLONESHOT }

/-- One turn of the loop of `getEventsRequest`. -/
def report (ℓ : LoopId) (r : Reactor) (e : Fd × Ready) : Reactor :=
  let epoll := (r.loops ℓ).epoll
  let r := r.setEpoll ℓ { epoll with
    interest := update epoll.interest e.1 ((epoll.interest e.1).map Registration.fire) }
  match epoll.fd2chan_ e.1 with
  | none => r
  | some c => { r with conns := update r.conns c ((r.conns c).map (·.handOut e.2)) }

/-- `Epoll::poll`, which goes on while it hands out no channel. -/
def pollEvents (r : Reactor) (ℓ : LoopId) (events : List (Fd × Ready)) (woken : Bool) : Reactor :=
  let ret := events.filterMap fun e => (r.loops ℓ).epoll.fd2chan_ e.1
  (events.foldl (report ℓ) r).setPoint ℓ (if ret = [] ∧ !woken then .polling else .handling ret)

/-- `functors.swap(pendingFunctors_)` -/
def swapFunctors (r : Reactor) (ℓ : LoopId) : Reactor :=
  let loop := r.loops ℓ
  { r with loops := update r.loops ℓ { loop with
      point := .functors [] loop.pendingFunctors_, pendingFunctors_ := [] } }

/-- `timerNodeQueue.top()` may be this node. -/
def isTop (queue : List TimerNode) (node : TimerNode) : Prop :=
  node ∈ queue ∧ ∀ other ∈ queue, node.expiredTime_ ≤ other.expiredTime_

instance (queue : List TimerNode) (node : TimerNode) : Decidable (isTop queue node) :=
  inferInstanceAs (Decidable (_ ∧ _))

/-- `timerNodeQueue.pop()` -/
def pop (r : Reactor) (ℓ : LoopId) (id : TimerId) : Reactor :=
  let epoll := (r.loops ℓ).epoll
  let tm := epoll.timerManager_
  r.setEpoll ℓ { epoll with timerManager_ :=
    { tm with timerNodeQueue := tm.timerNodeQueue.filter (·.id ≠ id) } }

/-- The pop of a node and `~TimerNode`. -/
def popNode (r : Reactor) (ℓ : LoopId) (node : TimerNode) (a : Arrival) : Option Reactor :=
  match node.SPHttpData with
  | none => some (r.pop ℓ node.id)
  | some c => ((r.pop ℓ node.id).call c a handleClose).map fun r => r.release c

/-- `handleEvents` of the connection returns. -/
def HandlerReturns (w : ConnId → World) (r : Reactor) (c : ConnId) (a : Arrival) : Prop :=
  ∀ cl ∈ r.conns c, EventsReturn (w c) (cl.conn a (r.loops cl.http.loop_).epoll)

instance (w : ConnId → World) (r : Reactor) (c : ConnId) (a : Arrival) :
    Decidable (HandlerReturns w r c a) :=
  inferInstanceAs (Decidable (∀ cl ∈ _, _))

/-- The step of the thread that the label names; `handleEvents` is undefined of a connection that
was destroyed, and where it does not return. -/
def step (w : ConnId → World) (r : Reactor) : Label → Option Reactor
  | .accept fd ℓ nonBlocking =>
    -- The kernel gives out descriptors that are not open.
    if r.req_info = none ∧ r.isOpen fd = false then some (r.acceptConn fd ℓ nonBlocking) else none
  | .accepted => r.req_info.map fun c => { r with req_info := none }.release c
  | .poll ℓ events woken =>
    if (r.loops ℓ).point = .polling ∧ reports (r.loops ℓ).epoll.interest events then
      some (r.pollEvents ℓ events woken)
    else none
  | .handle ℓ a =>
    match (r.loops ℓ).point with
    | .handling (c :: ret) =>
      if HandlerReturns w r c a then
        ((r.setPoint ℓ (.handling ret)).call c a (handleEvents (w c))).map fun r => r.release c
      else none
    | _ => none
  | .startFunctors ℓ =>
    match (r.loops ℓ).point with
    | .handling [] => some (r.swapFunctors ℓ)
    | _ => none
  | .runFunctor ℓ a =>
    match (r.loops ℓ).point with
    | .functors done (c :: rest) => (r.setPoint ℓ (.functors (done ++ [c]) rest)).call c a newEvent
    | _ => none
  | .endFunctors ℓ =>
    match (r.loops ℓ).point with
    | .functors done [] => some (done.foldl release (r.setPoint ℓ .expiring))
    | _ => none
  | .expire ℓ id a =>
    if (r.loops ℓ).point = .expiring then
      let queue := (r.loops ℓ).epoll.timerManager_.timerNodeQueue
      match queue.find? (·.id = id) with
      | some node =>
        -- `handleExpired` looks at the top of the queue only.
        if isTop queue node ∧ (node.deleted_ ∨ node.expiredTime_ ≤ a.now.msec) then
          r.popNode ℓ node a
        else none
      | none => none
    else none
  | .endExpire ℓ now =>
    let queue := (r.loops ℓ).epoll.timerManager_.timerNodeQueue
    if (r.loops ℓ).point = .expiring ∧ (queue = [] ∨ ∃ node ∈ queue, isTop queue node ∧
        node.deleted_ = false ∧ now.msec < node.expiredTime_) then
      some (r.setPoint ℓ .polling)
    else none

def machine (w : ConnId → World) : Machine Reactor Label := ⟨(· = .new), step w⟩

end Reactor

end LightAgent
