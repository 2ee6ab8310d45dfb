import LightAgent.HttpData.Rounds
import LightAgent.HttpData.HandleConn

/-!
# What the read and write handlers do to the loop

Up to `handleConn` the handlers leave the poller tables alone, detach the timer at most,
and collect in `events_` what the connection wants to hear of next.
-/
namespace LightAgent

open Library

/-- The same timer link and the same timer queue. -/
structure SameTimer (s s' : Conn) : Prop where
  timer_ : s'.http.timer_ = s.http.timer_
  timerManager_ : s'.epoll.timerManager_ = s.epoll.timerManager_

namespace SameTimer

theorem refl (s : Conn) : SameTimer s s := ⟨rfl, rfl⟩

theorem symm {s s' : Conn} (same : SameTimer s s') : SameTimer s' s :=
  ⟨same.timer_.symm, same.timerManager_.symm⟩

theorem trans {s₁ s₂ s₃ : Conn} (first : SameTimer s₁ s₂) (second : SameTimer s₂ s₃) :
    SameTimer s₁ s₃ :=
  ⟨second.timer_.trans first.timer_, second.timerManager_.trans first.timerManager_⟩

theorem locks {s s' : Conn} (same : SameTimer s s') : s'.timerLocks = s.timerLocks := by
  unfold Conn.timerLocks
  rw [same.timer_, same.timerManager_]

theorem seperate {s s' : Conn} (same : SameTimer s s') :
    SameTimer (seperateTimer s) (seperateTimer s') := by
  unfold seperateTimer
  rw [same.locks]
  cases s.timerLocks with
  | none => exact same
  | some id =>
    constructor
    · rfl
    · change s'.epoll.timerManager_.clearReq id = s.epoll.timerManager_.clearReq id
      rw [same.timerManager_]

end SameTimer

/-- A timer is detached once. -/
theorem seperateTimer_again (s : Conn) :
    SameTimer (seperateTimer s) (seperateTimer (seperateTimer s)) := by
  cases locked : s.timerLocks with
  | none =>
    have stays : seperateTimer s = s := by
      unfold seperateTimer
      rw [locked]
    rw [stays, stays]
    exact .refl s
  -- The first call has reset `timer_`, so the second one finds nothing to lock.
  | some id =>
    have unlinked : (seperateTimer s).http.timer_ = none := by
      unfold seperateTimer
      rw [locked]
    have none_locks : (seperateTimer s).timerLocks = none := by
      unfold Conn.timerLocks
      rw [unlinked]
      rfl
    have stays : seperateTimer (seperateTimer s) = seperateTimer s := by
      rw [seperateTimer.eq_def (seperateTimer s), none_locks]
    rw [stays]
    exact .refl _

/-- What the handlers before `handleConn` leave alone. The timer is as it was or detached. -/
structure HandlerFrame (s s' : Conn) : Prop where
  this : s'.http.this = s.http.this
  loop_ : s'.http.loop_ = s.http.loop_
  fd_ : s'.http.fd_ = s.http.fd_
  channel_ : ∃ events, s'.http.channel_ = { s.http.channel_ with events_ := events }
  fd2chan_ : s'.epoll.fd2chan_ = s.epoll.fd2chan_
  fd2http_ : s'.epoll.fd2http_ = s.epoll.fd2http_
  interest : s'.epoll.interest = s.epoll.interest
  timers : SameTimer (seperateTimer s) (seperateTimer s')
  now : s'.wire.now = s.wire.now
  epollCtl : s'.wire.epollCtl = s.wire.epollCtl
  connectionState_ : s'.http.connectionState_ = s.http.connectionState_ ∨
    s'.http.connectionState_ = .disconnecting

namespace HandlerFrame

theorem refl (s : Conn) : HandlerFrame s s :=
  ⟨rfl, rfl, rfl, ⟨_, rfl⟩, rfl, rfl, rfl, .refl _, rfl, rfl, .inl rfl⟩

theorem trans {s₁ s₂ s₃ : Conn} (first : HandlerFrame s₁ s₂) (second : HandlerFrame s₂ s₃) :
    HandlerFrame s₁ s₃ where
  this := second.this.trans first.this
  loop_ := second.loop_.trans first.loop_
  fd_ := second.fd_.trans first.fd_
  channel_ := by
    obtain ⟨_, first⟩ := first.channel_
    obtain ⟨events, second⟩ := second.channel_
    exact ⟨events, by rw [second, first]⟩
  fd2chan_ := second.fd2chan_.trans first.fd2chan_
  fd2http_ := second.fd2http_.trans first.fd2http_
  interest := second.interest.trans first.interest
  timers := first.timers.trans second.timers
  now := second.now.trans first.now
  epollCtl := second.epollCtl.trans first.epollCtl
  -- Once the peer is gone it stays gone.
  connectionState_ := by
    rcases second.connectionState_ with kept | gone
    · rw [kept]; exact first.connectionState_
    · exact .inr gone

theorem revents_ {s s' : Conn} (frame : HandlerFrame s s') :
    s'.http.channel_.revents_ = s.http.channel_.revents_ := by
  obtain ⟨_, channel⟩ := frame.channel_
  rw [channel]

end HandlerFrame

theorem BlockFrame.handler {s s' : Conn} (frame : BlockFrame s s') : HandlerFrame s s' := by
  have timers : SameTimer s s' := ⟨frame.timer_, by rw [frame.epoll]⟩
  refine ⟨frame.this, frame.loop_, frame.fd_, ⟨_, frame.channel_⟩, ?_, ?_, ?_, timers.seperate,
    frame.now, frame.epollCtl, frame.connectionState_⟩
  all_goals rw [frame.epoll]

theorem handleWrite_frame (s : Conn) : HandlerFrame s (handleWrite s) := by
  unfold handleWrite
  split
  · exact ⟨rfl, rfl, rfl, ⟨_, rfl⟩, rfl, rfl, rfl, SameTimer.seperate ⟨rfl, rfl⟩, rfl, rfl, .inl rfl⟩
  · exact .refl s

theorem flush_frame (s : Conn) : HandlerFrame s (flush s) :=
  flush_cases s (.refl s) fun _ => handleWrite_frame s

theorem seperateTimer_frame (s : Conn) : HandlerFrame s (seperateTimer s) := by
  have timers := seperateTimer_again s
  obtain ⟨timer, http⟩ := seperateTimer_http s
  have wire := seperateTimer_wire s
  -- Of the poller only the timer queue changes.
  have epoll : ∃ tm, (seperateTimer s).epoll = { s.epoll with timerManager_ := tm } := by
    unfold seperateTimer
    split
    · exact ⟨_, rfl⟩
    · exact ⟨s.epoll.timerManager_, rfl⟩
  obtain ⟨tm, epoll⟩ := epoll
  refine ⟨?_, ?_, ?_, ⟨s.http.channel_.events_, ?_⟩, ?_, ?_, ?_, timers, ?_, ?_, .inl ?_⟩
  all_goals first
    | rw [http]
    | rw [wire]
    | rw [epoll]

theorem reset_frame (s : Conn) : HandlerFrame s (reset s) := by
  refine HandlerFrame.trans ?_ (seperateTimer_frame _)
  exact ⟨rfl, rfl, rfl, ⟨_, rfl⟩, rfl, rfl, rfl, SameTimer.seperate ⟨rfl, rfl⟩, rfl, rfl, .inl rfl⟩

theorem setEvents_frame (s : Conn) (events : Events) : HandlerFrame s (s.setEvents events) :=
  ⟨rfl, rfl, rfl, ⟨_, rfl⟩, rfl, rfl, rfl, SameTimer.seperate ⟨rfl, rfl⟩, rfl, rfl, .inl rfl⟩

theorem rearm_frame (s : Conn) : HandlerFrame s (rearm s) := by
  obtain ⟨events, rearmed⟩ := rearm_events s
  rw [rearmed]
  exact setEvents_frame s events

theorem handleRead_frame (w : World) (s : Conn) : HandlerFrame s (handleRead w s) := by
  have round (s : Conn) : HandlerFrame s (flush (readBlock w s)) :=
    (readBlock_block w s).handler.trans (flush_frame _)
  apply handleRead_induct (motive := HandlerFrame)
  · intro s _
    exact (round s).trans (rearm_frame _)
  · intro s _ _
    exact (round s).trans (reset_frame _)
  · intro s t _ _ rest
    exact ((round s).trans (reset_frame _)).trans rest

theorem dispatch_frame (w : World) (s : Conn) : HandlerFrame s (dispatch w s) := by
  have read : HandlerFrame s
      (if s.http.channel_.revents_.has (EPOLLIN ||| EPOLLPRI ||| EPOLLRDHUP) then handleRead w s
        else s) := by
    split
    · exact handleRead_frame w s
    · exact .refl s
  unfold dispatch
  dsimp only
  split
  · exact read.trans (handleWrite_frame _)
  · exact read

/-! ### The events a connection asks for -/

/-- The masks the handlers build up from 0. -/
def Wanted (events : Events) : Prop :=
  events = 0 ∨ events = EPOLLIN ∨ events = EPOLLOUT ∨ events = EPOLLIN ||| EPOLLOUT

theorem Wanted.or_in {events : Events} (wanted : Wanted events) :
    Wanted (events ||| EPOLLIN) ∧ (events.has EPOLLOUT → (events ||| EPOLLIN).has EPOLLOUT) := by
  unfold Wanted
  rcases wanted with rfl | rfl | rfl | rfl <;> decide

theorem Wanted.or_out {events : Events} (wanted : Wanted events) :
    Wanted (events ||| EPOLLOUT) ∧ (events ||| EPOLLOUT).has EPOLLOUT := by
  unfold Wanted
  rcases wanted with rfl | rfl | rfl | rfl <;> decide

/-- What is pending is asked to be written. -/
structure AsksFor (s : Conn) : Prop where
  wanted : Wanted s.http.channel_.events_
  output : s.http.error_ = false → s.http.outBuffer_ ≠ [] → s.http.channel_.events_.has EPOLLOUT

theorem handleWrite_asks {s : Conn} (wanted : Wanted s.http.channel_.events_)
    (here : s.http.connectionState_ ≠ .disconnected) : AsksFor (handleWrite s) := by
  unfold handleWrite
  split
  next =>
    generalize writen s.http.outBuffer_ s.wire.writes = out
    -- A write that failed clears the events, any other keeps them.
    have cleared : Wanted (if out.ret.isNone then 0 else s.http.channel_.events_) := by
      split
      · exact .inl rfl
      · exact wanted
    unfold afterWrite
    constructor
    · dsimp only
      split
      · exact cleared.or_out.1
      · exact cleared
    · intro _ pending
      dsimp only at pending ⊢
      rw [if_pos pending]
      exact cleared.or_out.2
  -- Without a write `error_` is set, for the connection is still there.
  next idle =>
    refine ⟨wanted, fun alive _ => absurd ⟨?_, here⟩ idle⟩
    rw [alive]
    rfl

theorem flush_asks {s : Conn} (wanted : Wanted s.http.channel_.events_)
    (here : s.http.connectionState_ ≠ .disconnected) : AsksFor (flush s) := by
  unfold flush
  split
  next failed => exact ⟨wanted, fun alive => nomatch failed.symm.trans alive⟩
  next =>
    split
    next => exact handleWrite_asks wanted here
    next empty => exact ⟨wanted, fun _ pending => absurd pending empty⟩

theorem HandlerFrame.here {s s' : Conn} (frame : HandlerFrame s s')
    (here : s.http.connectionState_ ≠ .disconnected) :
    s'.http.connectionState_ ≠ .disconnected := by
  rcases frame.connectionState_ with kept | gone
  · rw [kept]; exact here
  · rw [gone]; decide

theorem reset_asks {s : Conn} (asks : AsksFor s) : AsksFor (reset s) := by
  obtain ⟨timer, http⟩ := seperateTimer_http (s.setHttp { s.http with
    fileName_ := [], nowReadPos_ := 0, state_ := .parseUri, hState_ := .start,
    headers_ := .empty })
  unfold reset
  constructor
  · rw [http]; exact asks.wanted
  · rw [http]; exact asks.output

theorem rearm_asks {s : Conn} (asks : AsksFor s) : AsksFor (rearm s) := by
  unfold rearm
  split
  · refine ⟨asks.wanted.or_in.1, fun alive pending => asks.wanted.or_in.2 (asks.output alive pending)⟩
  · exact asks

theorem handleRead_asks {w : World} {s : Conn} (wanted : Wanted s.http.channel_.events_)
    (here : s.http.connectionState_ ≠ .disconnected) : AsksFor (handleRead w s) := by
  have round {s : Conn} (wanted : Wanted s.http.channel_.events_)
      (here : s.http.connectionState_ ≠ .disconnected) : AsksFor (flush (readBlock w s)) := by
    have block := readBlock_block w s
    exact flush_asks (block.channel_ ▸ wanted) (block.handler.here here)
  -- The rounds are taken one after another; only the last one may rearm.
  revert wanted here
  apply handleRead_induct (motive := fun s t => Wanted s.http.channel_.events_ →
    s.http.connectionState_ ≠ .disconnected → AsksFor t)
  · intro s _ wanted here
    exact rearm_asks (round wanted here)
  · intro s _ _ wanted here
    exact reset_asks (round wanted here)
  · intro s t _ _ rest wanted here
    have frame := ((readBlock_block w s).handler.trans (flush_frame _)).trans (reset_frame _)
    exact rest (reset_asks (round wanted here)).wanted (frame.here here)

/-- The handlers of an event ask for the output to be written, when the event is one of
those that make them run or nothing is pending. -/
theorem dispatch_asks {w : World} {s : Conn} (idle : s.http.channel_.events_ = 0)
    (here : s.http.connectionState_ ≠ .disconnected)
    (heard : s.http.channel_.revents_.has (EPOLLIN ||| EPOLLPRI ||| EPOLLRDHUP) ∨
      s.http.channel_.revents_.has EPOLLOUT ∨ s.http.outBuffer_ = []) :
    AsksFor (dispatch w s) := by
  have wanted : Wanted s.http.channel_.events_ := .inl idle
  unfold dispatch
  dsimp only
  by_cases readable : s.http.channel_.revents_.has (EPOLLIN ||| EPOLLPRI ||| EPOLLRDHUP) = true
  · rw [if_pos readable]
    have asks := handleRead_asks (w := w) wanted here
    split
    · exact handleWrite_asks asks.wanted ((handleRead_frame w s).here here)
    · exact asks
  · rw [if_neg readable]
    split
    next => exact handleWrite_asks wanted here
    next deaf =>
      refine ⟨wanted, fun _ pending => ?_⟩
      -- Nothing was handled, so nothing can be pending.
      rcases heard with read | write | empty
      · exact absurd read readable
      · exact absurd write deaf
      · exact absurd empty pending

end LightAgent
