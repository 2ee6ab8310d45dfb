import LightAgent.HttpData.HandleRead

/-!
# The handlers around handleRead

What a loop calls for a connection: `newEvent` for one that was accepted, and
`Channel::handleEvents` for one with events, ending in `handleConn`. Handlers run in
the thread of the loop, where `runInLoop` calls the functor at once.
-/
namespace LightAgent

open Library

/-- `HttpData::newEvent` -/
def newEvent (s : Conn) : Conn := epoll_add (s.setEvents DEFAULT_EVENT) DEFAULT_EXPIRED_TIME

/-- `HttpData::handleClose` -/
def handleClose (s : Conn) : Conn :=
  epoll_del (s.setHttp { s.http with connectionState_ := .disconnected })

/-- The exits of `HttpData::handleConn`. -/
inductive ConnExit where
  /-- the poller is told of the events, and a timer is set -/
  | rearms (events : Events) (timeout : Nat)
  /-- the peer is gone and there is output left: neither the poller nor the timers hear of it -/
  | strands
  | closes
  deriving DecidableEq, Repr

/-- Which exit `handleConn` takes. -/
def HttpData.connExit (h : HttpData) : ConnExit :=
  let events := h.channel_.events_
  if !h.error_ ∧ h.connectionState_ = .connected then
    if events ≠ 0 then
      let timeout := if h.keepAlive_ then DEFAULT_KEEP_ALIVE_TIME else DEFAULT_EXPIRED_TIME
      let events := if events.has EPOLLIN ∧ events.has EPOLLOUT then 0 ||| EPOLLOUT else events
      .rearms (events ||| EPOLLET) timeout
    else if h.keepAlive_ then .rearms (events ||| (EPOLLIN ||| EPOLLET)) DEFAULT_KEEP_ALIVE_TIME
    else .rearms (events ||| (EPOLLIN ||| EPOLLET)) (DEFAULT_KEEP_ALIVE_TIME >>> 1)
  else if !h.error_ ∧ h.connectionState_ = .disconnecting ∧ events.has EPOLLOUT then .strands
  else .closes

/-- `HttpData::handleConn` -/
def handleConn (s : Conn) : Conn :=
  let s := seperateTimer s
  match s.http.connExit with
  | .rearms events timeout => epoll_mod (s.setEvents events) timeout
  | .strands => s.setEvents (EPOLLOUT ||| EPOLLET)
  | .closes => handleClose s

theorem handleConn_rearms {s : Conn} {events : Events} {timeout : Nat}
    (exit : (seperateTimer s).http.connExit = .rearms events timeout) :
    handleConn s = epoll_mod ((seperateTimer s).setEvents events) timeout := by
  unfold handleConn
  dsimp only
  rw [exit]

theorem handleConn_strands {s : Conn} (exit : (seperateTimer s).http.connExit = .strands) :
    handleConn s = (seperateTimer s).setEvents (EPOLLOUT ||| EPOLLET) := by
  unfold handleConn
  dsimp only
  rw [exit]

theorem handleConn_closes {s : Conn} (exit : (seperateTimer s).http.connExit = .closes) :
    handleConn s = handleClose (seperateTimer s) := by
  unfold handleConn
  dsimp only
  rw [exit]

/-- The returns of `Channel::handleEvents` before any handler; a client channel has no
error handler. -/
def returnsEarly (revents_ : Events) : Bool :=
  (revents_.has EPOLLHUP && !revents_.has EPOLLIN) || revents_.has EPOLLERR

/-- The read and write handlers of `Channel::handleEvents`. -/
def dispatch (w : World) (s : Conn) : Conn :=
  let revents_ := s.http.channel_.revents_
  let s := if revents_.has (EPOLLIN ||| EPOLLPRI ||| EPOLLRDHUP) then handleRead w s else s
  if revents_.has EPOLLOUT then handleWrite s else s

/-- `Channel::handleEvents` -/
def handleEvents (w : World) (s : Conn) : Conn :=
  let s := s.setEvents 0
  if returnsEarly s.http.channel_.revents_ then s else handleConn (dispatch w s)

/-! ### What the handlers outside handleRead change of the members -/

theorem seperateTimer_http (s : Conn) :
    ∃ timer, (seperateTimer s).http = { s.http with timer_ := timer } := by
  unfold seperateTimer
  split
  · exact ⟨none, rfl⟩
  · exact ⟨s.http.timer_, rfl⟩

theorem add_timer_http (s : Conn) (timeout : Nat) :
    ∃ timer, (add_timer s timeout).http = { s.http with timer_ := timer } := by
  unfold add_timer addTimer
  split
  · exact ⟨_, rfl⟩
  · exact ⟨s.http.timer_, rfl⟩

theorem control_http (s : Conn) : s.control.http = s.http := by
  unfold Conn.control
  dsimp only
  split <;> rfl

theorem epoll_mod_http (s : Conn) (timeout : Nat) : ∃ channel timer,
    (epoll_mod s timeout).http = { s.http with channel_ := channel, timer_ := timer } := by
  obtain ⟨timer, http⟩ : ∃ timer, (if timeout > 0 then add_timer s timeout else s).http =
      { s.http with timer_ := timer } := by
    split
    · exact add_timer_http s timeout
    · exact ⟨s.http.timer_, rfl⟩
  unfold epoll_mod
  dsimp only
  generalize (if timeout > 0 then add_timer s timeout else s) = t at http
  refine ⟨(equalAndUpdateLastEvents t).2.http.channel_, timer, ?_⟩
  -- With the same events `epoll_ctl` is not called.
  split
  · unfold equalAndUpdateLastEvents; rw [http]
  · rw [control_http]; unfold equalAndUpdateLastEvents; rw [http]

theorem epoll_del_http (s : Conn) : (epoll_del s).http = s.http := by
  unfold epoll_del
  dsimp only
  split <;> rfl

/-- `handleConn` changes the channel and the timer link, or closes the connection. -/
theorem handleConn_http (s : Conn) : ∃ channel timer state,
    (state = s.http.connectionState_ ∨ state = .disconnected) ∧ (handleConn s).http =
      { s.http with channel_ := channel, timer_ := timer, connectionState_ := state } := by
  obtain ⟨timer, http⟩ := seperateTimer_http s
  unfold handleConn
  dsimp only
  -- The three ends of `handleConn`: rearmed, stranded, closed.
  split
  · next events timeout _ =>
    obtain ⟨channel, timer, http'⟩ := epoll_mod_http ((seperateTimer s).setEvents events) timeout
    refine ⟨channel, timer, s.http.connectionState_, .inl rfl, ?_⟩
    rw [http']
    unfold Conn.setEvents
    rw [http]
  · refine ⟨{ s.http.channel_ with events_ := EPOLLOUT ||| EPOLLET }, timer,
      s.http.connectionState_, .inl rfl, ?_⟩
    unfold Conn.setEvents
    rw [http]
  · refine ⟨s.http.channel_, timer, .disconnected, .inr rfl, ?_⟩
    unfold handleClose
    rw [epoll_del_http]
    unfold Conn.setHttp
    rw [http]

/-- A connection that failed is closed. -/
theorem handleConn_failed {s : Conn} (failed : s.http.error_ = true) :
    (handleConn s).http.connectionState_ = .disconnected := by
  obtain ⟨timer, http⟩ := seperateTimer_http s
  have closes : (seperateTimer s).http.connExit = .closes := by
    unfold HttpData.connExit
    simp [http, failed]
  rw [handleConn_closes closes]
  unfold handleClose
  rw [epoll_del_http]
  rfl

/-! ### The socket is left alone -/

theorem seperateTimer_wire (s : Conn) : (seperateTimer s).wire = s.wire := by
  unfold seperateTimer
  split <;> rfl

theorem add_timer_wire (s : Conn) (timeout : Nat) : (add_timer s timeout).wire = s.wire := by
  unfold add_timer
  split <;> rfl

theorem control_wire (s : Conn) : s.control.wire = s.wire := by
  unfold Conn.control
  dsimp only
  split <;> rfl

theorem epoll_mod_wire (s : Conn) (timeout : Nat) : (epoll_mod s timeout).wire = s.wire := by
  have timed : (if timeout > 0 then add_timer s timeout else s).wire = s.wire := by
    split
    · exact add_timer_wire s timeout
    · rfl
  unfold epoll_mod
  dsimp only
  generalize (if timeout > 0 then add_timer s timeout else s) = t at timed
  split
  · exact timed
  · rw [control_wire]; exact timed

theorem epoll_del_wire (s : Conn) : (epoll_del s).wire = s.wire := by
  unfold epoll_del
  dsimp only
  split <;> rfl

theorem handleClose_http (s : Conn) :
    (handleClose s).http = { s.http with connectionState_ := .disconnected } := epoll_del_http _

theorem handleClose_wire (s : Conn) : (handleClose s).wire = s.wire := epoll_del_wire _

theorem handleConn_wire (s : Conn) : (handleConn s).wire = s.wire := by
  unfold handleConn handleClose
  dsimp only
  split
  · rw [epoll_mod_wire]; exact seperateTimer_wire s
  · exact seperateTimer_wire s
  · rw [epoll_del_wire]; exact seperateTimer_wire s

end LightAgent
