import LightAgent.State
import Mathlib.Logic.Function.Basic

/-!
# Timer: nodes and their links

A node stays in the queue until it is popped. A connection lets go of it with
`clearReq`, through the weak pointer `timer_`, which locks as long as the node is queued.
-/
namespace LightAgent

/-- The milliseconds `TimerNode` and `isValid` compute from `gettimeofday`. -/
def Timeval.msec (now : Timeval) : Nat := (now.tv_sec % 10000) * 1000 + now.tv_usec / 1000

/-- `TimerNode::clearReq` -/
def TimerNode.clearReq (node : TimerNode) : TimerNode :=
  { node with SPHttpData := none, deleted_ := true }

/-- `clearReq` on the queued node of that name. -/
def TimerManager.clearReq (tm : TimerManager) (id : TimerId) : TimerManager :=
  { tm with timerNodeQueue :=
      tm.timerNodeQueue.map fun node => if node.id = id then node.clearReq else node }

/-- `TimerManager::addTimer` up to the call of `linkTimer`; the node made is `tm.nextId`. -/
def TimerManager.addTimer (tm : TimerManager) (http : ConnId) (timeout : Nat) (now : Timeval) :
    TimerManager where
  timerNodeQueue := tm.timerNodeQueue ++ [⟨tm.nextId, false, now.msec + timeout, some http⟩]
  nextId := tm.nextId + 1
  history := (http, tm.nextId) :: tm.history

/-- `timer_.lock()` succeeds -/
def Conn.timerLocks (s : Conn) : Option TimerId :=
  s.http.timer_.filter fun id => s.epoll.timerManager_.timerNodeQueue.any (·.id = id)

def Conn.setTimers (s : Conn) (tm : TimerManager) : Conn :=
  { s with epoll := { s.epoll with timerManager_ := tm } }

/-- `HttpData::seperateTimer` -/
def seperateTimer (s : Conn) : Conn :=
  match s.timerLocks with
  | some id =>
    { s.setTimers (s.epoll.timerManager_.clearReq id) with http := { s.http with timer_ := none } }
  | none => s

/-- `TimerManager::addTimer` with `HttpData::linkTimer`. -/
def addTimer (s : Conn) (timeout : Nat) : Conn :=
  let tm := s.epoll.timerManager_
  { s.setTimers (tm.addTimer s.http.this timeout s.wire.now) with
    http := { s.http with timer_ := some tm.nextId } }

end LightAgent
