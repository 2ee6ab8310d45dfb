import LightAgent.HttpData.Placement
import LightAgent.HttpData.Registration
import LightAgent.TimerLinks

/-!
# Counterparts

The same connection at two places, with what the poller and the kernel have of its descriptor and
with its deadline. A handler that is called for both leaves counterparts behind.
-/
namespace LightAgent

open Library Function

/-- When the timeouts of the connection are over. -/
def TimerManager.deadlines (tm : TimerManager) (c : ConnId) : List Nat :=
  (tm.timerNodeQueue.filter fun node => node.SPHttpData = some c).map (·.expiredTime_)

theorem TimerManager.Detached.deadlines {tm : TimerManager} {c : ConnId} (detached : tm.Detached c) :
    tm.deadlines c = [] := by
  unfold TimerManager.deadlines
  rw [List.filter_eq_nil_iff.mpr fun node queued => by simpa using detached node queued]
  rfl

theorem TimerManager.detached_iff {tm : TimerManager} {c : ConnId} :
    tm.Detached c ↔ tm.deadlines c = [] := by
  refine ⟨Detached.deadlines, fun none_left node queued refers => ?_⟩
  have kept := List.filter_eq_nil_iff.mp (List.map_eq_nil_iff.mp none_left) node queued
  exact kept (decide_eq_true refers)

theorem deadlines_addTimer (tm : TimerManager) (c : ConnId) (timeout : Nat) (now : Timeval) :
    (tm.addTimer c timeout now).deadlines c = tm.deadlines c ++ [now.msec + timeout] := by
  unfold TimerManager.deadlines TimerManager.addTimer
  simp

/-- The table has the connection at its descriptor. -/
def Conn.listed (s : Conn) : Prop := s.epoll.fd2http_ s.http.fd_ = some s.http.this

/-- The table has the channel at its descriptor. -/
def Conn.heard (s : Conn) : Prop := s.epoll.fd2chan_ s.http.fd_ = some s.http.this

def Conn.deadlines (s : Conn) : List Nat := s.epoll.timerManager_.deadlines s.http.this

def Conn.registration (s : Conn) : Option Registration := s.epoll.interest s.http.fd_

/-- A closed connection is in neither table. -/
theorem Closed.unlisted {s t : Conn} (closed : Closed s t) : ¬t.listed := by
  unfold Conn.listed
  rw [closed.fd2http_, closed.http, update_self]
  nofun

theorem Closed.unheard {s t : Conn} (closed : Closed s t) : ¬t.heard := by
  unfold Conn.heard
  rw [closed.fd2chan_, closed.http, update_self]
  nofun

structure Counterpart (s t : Conn) : Prop where
  elsewhere : Elsewhere s t
  held : s.http.channel_.holder_ = some s.http.this
  listed : t.listed ↔ s.listed
  heard : t.heard ↔ s.heard
  registration : t.registration = s.registration
  deadlines : t.deadlines = s.deadlines

namespace Counterpart

variable {s t u : Conn}

theorem held' (counterpart : Counterpart s t) : t.http.channel_.holder_ = some t.http.this := by
  obtain ⟨p, rfl⟩ := counterpart.elsewhere
  rfl

theorem refl (held : s.http.channel_.holder_ = some s.http.this) : Counterpart s s := by
  refine ⟨⟨⟨s.http.this, s.http.loop_, s.http.fd_, s.http.timer_, s.epoll⟩, ?_⟩, held, Iff.rfl,
    Iff.rfl, rfl, rfl⟩
  unfold Conn.moved HttpData.moved
  rw [← held]

theorem symm (counterpart : Counterpart s t) : Counterpart t s := by
  obtain ⟨⟨p, rfl⟩, held, listed, heard, registration, deadlines⟩ := counterpart
  refine ⟨⟨⟨s.http.this, s.http.loop_, s.http.fd_, s.http.timer_, s.epoll⟩, ?_⟩, rfl, listed.symm,
    heard.symm, registration.symm, deadlines.symm⟩
  unfold Conn.moved HttpData.moved
  rw [← held]

theorem trans (first : Counterpart s t) (second : Counterpart t u) : Counterpart s u := by
  obtain ⟨p, rfl⟩ := first.elsewhere
  obtain ⟨q, rfl⟩ := second.elsewhere
  exact ⟨⟨q, rfl⟩, first.held, second.listed.trans first.listed, second.heard.trans first.heard,
    second.registration.trans first.registration, second.deadlines.trans first.deadlines⟩

/-! ### The operations of the poller -/

theorem setEvents (counterpart : Counterpart s t) (events : Events) :
    Counterpart (s.setEvents events) (t.setEvents events) :=
  { counterpart with elsewhere := counterpart.elsewhere.setEvents events }

/-- What `epoll_ctl` does with one of them it does with the other. -/
theorem control (counterpart : Counterpart s t) : Counterpart s.control t.control := by
  obtain ⟨⟨p, rfl⟩, held, listed, heard, registration, deadlines⟩ := counterpart
  unfold Conn.control
  dsimp only
  cases called : s.wire.epollCtl with
  | true =>
    rw [if_pos rfl, if_pos (show (s.moved p).wire.epollCtl = true from called)]
    refine ⟨.of_http (q := p) rfl rfl, held, listed, heard, ?_, deadlines⟩
    unfold Conn.registration
    dsimp only
    rw [update_self, update_self]
    rfl
  | false =>
    rw [if_neg Bool.false_ne_true,
      if_neg (show ¬(s.moved p).wire.epollCtl = true from called ▸ Bool.false_ne_true)]
    refine ⟨.of_http (q := p) rfl rfl, held, listed, ?_, registration, deadlines⟩
    unfold Conn.heard
    dsimp only
    rw [update_self, update_self]
    exact iff_of_false nofun nofun

theorem add_timer (counterpart : Counterpart s t) (timeout : Nat) :
    Counterpart (add_timer s timeout) (add_timer t timeout) := by
  have held' := counterpart.held'
  obtain ⟨⟨p, rfl⟩, held, listed, heard, registration, deadlines⟩ := counterpart
  unfold LightAgent.add_timer
  rw [held, held']
  refine ⟨.of_http (q := { p with timer_ := some p.epoll.timerManager_.nextId }) rfl rfl, held,
    listed, heard, registration, ?_⟩
  exact (deadlines_addTimer _ _ timeout _).trans
    ((congrArg (· ++ _) deadlines).trans (deadlines_addTimer _ _ timeout _).symm)

theorem updateLastEvents (counterpart : Counterpart s t) :
    Counterpart (equalAndUpdateLastEvents s).2 (equalAndUpdateLastEvents t).2 := by
  obtain ⟨⟨p, rfl⟩, held, listed, heard, registration, deadlines⟩ := counterpart
  exact ⟨⟨p, rfl⟩, held, listed, heard, registration, deadlines⟩

theorem epoll_mod (counterpart : Counterpart s t) (timeout : Nat) :
    Counterpart (epoll_mod s timeout) (epoll_mod t timeout) := by
  have timed : Counterpart (if timeout > 0 then LightAgent.add_timer s timeout else s)
      (if timeout > 0 then LightAgent.add_timer t timeout else t) := by
    split
    · exact counterpart.add_timer timeout
    · exact counterpart
  unfold LightAgent.epoll_mod
  dsimp only
  generalize (if timeout > 0 then LightAgent.add_timer s timeout else s) = u at timed
  generalize (if timeout > 0 then LightAgent.add_timer t timeout else t) = v at timed
  have same : (equalAndUpdateLastEvents v).1 = (equalAndUpdateLastEvents u).1 := by
    obtain ⟨p, rfl⟩ := timed.elsewhere
    rfl
  rw [same]
  split
  · exact timed.updateLastEvents
  · exact timed.updateLastEvents.control

theorem handleClose (counterpart : Counterpart s t) :
    Counterpart (handleClose s) (handleClose t) := by
  have kept (s : Conn) : (LightAgent.handleClose s).deadlines = s.deadlines := by
    have closed := handleClose_closed s
    unfold Conn.deadlines
    rw [closed.timers.timerManager_, closed.http]
  have forgotten (s : Conn) : (LightAgent.handleClose s).registration =
      if s.wire.epollCtl then none else s.registration := by
    cases called : s.wire.epollCtl with
    | true => simp [LightAgent.handleClose, epoll_del, Conn.registration, Conn.setHttp, called]
    | false => simp [LightAgent.handleClose, epoll_del, Conn.registration, Conn.setHttp, called]
  have both := counterpart
  obtain ⟨⟨p, rfl⟩, held, listed, heard, registration, deadlines⟩ := both
  refine ⟨.of_http (q := p) ?_ ?_, ?_,
    iff_of_false (handleClose_closed _).unlisted (handleClose_closed _).unlisted,
    iff_of_false (handleClose_closed _).unheard (handleClose_closed _).unheard, ?_, ?_⟩
  · rw [handleClose_http, handleClose_http]
    rfl
  · rw [handleClose_wire, handleClose_wire]
    rfl
  · rw [handleClose_http]
    exact held
  · rw [forgotten, forgotten, registration]
    rfl
  · rw [kept, kept, deadlines]

/-- A first entry in both tables, and what `epoll_ctl` makes of it. -/
theorem newEvent (counterpart : Counterpart s t) : Counterpart (newEvent s) (newEvent t) := by
  have timed := ((counterpart.setEvents DEFAULT_EVENT).add_timer DEFAULT_EXPIRED_TIME)
  unfold LightAgent.newEvent epoll_add
  dsimp only
  rw [if_pos (by decide), if_pos (by decide)]
  have fd (s : Conn) : (LightAgent.add_timer s DEFAULT_EXPIRED_TIME).http.fd_ = s.http.fd_ := by
    obtain ⟨_, _, eq⟩ := add_timer_eq s DEFAULT_EXPIRED_TIME
    rw [eq]
  rw [← fd (s.setEvents _), ← fd (t.setEvents _)]
  generalize LightAgent.add_timer (s.setEvents DEFAULT_EVENT) DEFAULT_EXPIRED_TIME = u at timed
  generalize LightAgent.add_timer (t.setEvents DEFAULT_EVENT) DEFAULT_EXPIRED_TIME = v at timed
  apply control
  have held' := timed.held'
  obtain ⟨⟨p, rfl⟩, held, listed, heard, registration, deadlines⟩ := timed
  refine ⟨.of_http (q := p) rfl rfl, held, iff_of_true ?_ ?_, iff_of_true ?_ ?_, registration,
    deadlines⟩
  · exact (update_self (u.moved p).http.fd_ _ _).trans held'
  · exact (update_self u.http.fd_ _ _).trans held
  · exact update_self (u.moved p).http.fd_ _ _
  · exact update_self u.http.fd_ _ _

/-! ### The event handler -/

/-- The handlers before `handleConn`; afterwards no timeout is left of either. -/
theorem decided (counterpart : Counterpart s t) (w : World) {link link' : ConnId → Option TimerId}
    (timed : s.Timed link) (timed' : t.Timed link') :
    Counterpart (decided w s) (decided w t) := by
  have frame := decided_frame w s
  have frame' := decided_frame w t
  obtain ⟨_, channel⟩ := frame.channel_
  have none_left := (decided_timed w timed).2.deadlines
  have none_left' := (decided_timed w timed').2.deadlines
  refine ⟨counterpart.elsewhere.decided w, ?_, ?_, ?_, ?_, ?_⟩
  · rw [channel, frame.this]
    exact counterpart.held
  · unfold Conn.listed
    rw [frame.fd2http_, frame.fd_, frame.this, frame'.fd2http_, frame'.fd_, frame'.this]
    exact counterpart.listed
  · unfold Conn.heard
    rw [frame.fd2chan_, frame.fd_, frame.this, frame'.fd2chan_, frame'.fd_, frame'.this]
    exact counterpart.heard
  · unfold Conn.registration
    rw [frame.interest, frame.fd_, frame'.interest, frame'.fd_]
    exact counterpart.registration
  · unfold Conn.deadlines
    rw [frame.this, frame'.this, none_left, none_left']

theorem handleEvents (counterpart : Counterpart s t) (w : World)
    {link link' : ConnId → Option TimerId} (timed : s.Timed link) (timed' : t.Timed link') :
    Counterpart (handleEvents w s) (handleEvents w t) := by
  have events : t.http.channel_.revents_ = s.http.channel_.revents_ := by
    obtain ⟨p, rfl⟩ := counterpart.elsewhere
    rfl
  have decides := counterpart.decided w timed timed'
  have exit := decides.elsewhere.connExit
  cases early : returnsEarly s.http.channel_.revents_ with
  | true =>
    have early' : returnsEarly t.http.channel_.revents_ = true := by rw [events, early]
    rw [show LightAgent.handleEvents w s = s.setEvents 0 from if_pos early,
      show LightAgent.handleEvents w t = t.setEvents 0 from if_pos early']
    exact counterpart.setEvents 0
  | false =>
    have late : ¬returnsEarly s.http.channel_.revents_ = true := early ▸ Bool.false_ne_true
    have late' : ¬returnsEarly t.http.channel_.revents_ = true := events ▸ late
    rw [show LightAgent.handleEvents w s = handleConn (dispatch w (s.setEvents 0)) from if_neg late,
      show LightAgent.handleEvents w t = handleConn (dispatch w (t.setEvents 0)) from if_neg late']
    -- Both take the same exit of `handleConn`.
    cases leaves : (LightAgent.decided w s).http.connExit with
    | rearms events timeout =>
      rw [handleConn_rearms leaves, handleConn_rearms (exit.trans leaves)]
      exact (decides.setEvents events).epoll_mod timeout
    | strands =>
      rw [handleConn_strands leaves, handleConn_strands (exit.trans leaves)]
      exact decides.setEvents _
    | closes =>
      rw [handleConn_closes leaves, handleConn_closes (exit.trans leaves)]
      exact decides.handleClose

/-- What the kernel brings in the course of a handler. -/
theorem meets (counterpart : Counterpart s t) (a : Arrival) :
    Counterpart { s with wire := s.wire.meets a } { t with wire := t.wire.meets a } := by
  obtain ⟨⟨p, rfl⟩, held, listed, heard, registration, deadlines⟩ := counterpart
  exact ⟨⟨p, rfl⟩, held, listed, heard, registration, deadlines⟩

end Counterpart

/-! ### The deadlines of other connections -/

section Others

variable {s : Conn} {link : ConnId → Option TimerId}

/-- The node that `seperateTimer` clears was never one of another connection. -/
theorem seperateTimer_deadlines (timed : s.Timed link) {d : ConnId} (other : d ≠ s.http.this) :
    (seperateTimer s).epoll.timerManager_.deadlines d = s.epoll.timerManager_.deadlines d := by
  unfold seperateTimer
  cases locked : s.timerLocks with
  | none => rfl
  | some id =>
    have own : s.http.timer_ = some id := (Option.filter_eq_some_iff.mp locked).1
    have made := timed.recorded s.http.this id (by rw [update_self]; exact own)
    have differs (node : TimerNode) (queued : node ∈ s.epoll.timerManager_.timerNodeQueue)
        (refers : node.SPHttpData = some d) : node.id ≠ id := by
      have made' := timed.recorded d node.id (timed.refers node queued d refers).2.1
      exact fun same => other (timed.owner d _ id (same ▸ made') made)
    change ((List.map (fun node => if node.id = id then node.clearReq else node)
      s.epoll.timerManager_.timerNodeQueue).filter _).map _ = _
    rw [List.filter_map, List.map_map]
    unfold TimerManager.deadlines
    refine (congrArg (List.map _) (List.filter_congr fun node queued => ?_)).trans
      (List.map_congr_left fun node queued => ?_)
    · by_cases refers : node.SPHttpData = some d
      · simp [differs node queued refers]
      · by_cases same : node.id = id
        · simp [same, refers, TimerNode.clearReq]
        · simp [same]
    · dsimp only [comp_apply]
      split <;> rfl

theorem add_timer_deadlines (s : Conn) (timeout : Nat) {d : ConnId} (other : d ≠ s.http.this) :
    (add_timer s timeout).epoll.timerManager_.deadlines d =
      s.epoll.timerManager_.deadlines d := by
  unfold add_timer
  split
  · unfold addTimer TimerManager.addTimer TimerManager.deadlines Conn.setTimers
    simp [Ne.symm other]
  · rfl

theorem newEvent_deadlines (s : Conn) {d : ConnId} (other : d ≠ s.http.this) :
    (newEvent s).epoll.timerManager_.deadlines d = s.epoll.timerManager_.deadlines d := by
  rw [(newEvent_entered s).timers.timerManager_]
  exact add_timer_deadlines s _ other

theorem handleEvents_deadlines (w : World) (timed : s.Timed link) {d : ConnId}
    (other : d ≠ s.http.this) : (handleEvents w s).epoll.timerManager_.deadlines d =
      s.epoll.timerManager_.deadlines d := by
  have settled : (decided w s).epoll.timerManager_.deadlines d =
      s.epoll.timerManager_.deadlines d := by
    rw [(decided_timer w s).timerManager_]
    exact seperateTimer_deadlines timed other
  cases handleEvents_handled w s with
  | ignored _ eq => rw [eq]; rfl
  | rearmed events timeout _ _ _ modified =>
    rw [modified.timers.timerManager_, ← settled]
    refine add_timer_deadlines ((decided w s).setEvents events) timeout ?_
    exact (decided_frame w s).this ▸ other
  | stranded _ _ eq => rw [eq]; exact settled
  | closed _ _ closed => rw [closed.timers.timerManager_]; exact settled

end Others

end LightAgent
