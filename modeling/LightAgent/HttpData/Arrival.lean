import LightAgent.HttpData.Received

/-!
# Input arriving on a connection

One `EPOLLIN` event, from the handing out of the channel to the end of `handleConn`.
As far as the peer can tell it is `handleRead` on the buffered input with the bytes
that have come (`arrive_outcome`).
-/
namespace LightAgent

open Library

/-- The event brings this chunk, cut and interrupted in any way; the peer stays there
and writes never block. -/
structure Arrival.Brings (a : Arrival) (chunk : Bytes) : Prop where
  reads : delivered a.reads = some chunk
  writes : Unblocked a.writes

instance (a : Arrival) (chunk : Bytes) : Decidable (a.Brings chunk) :=
  decidable_of_iff (delivered a.reads = some chunk ∧ Unblocked a.writes)
    ⟨fun ⟨reads, writes⟩ => ⟨reads, writes⟩, fun ⟨reads, writes⟩ => ⟨reads, writes⟩⟩

/-- The channel as `getEventsRequest` hands it out, and the kernel from then on. -/
def Conn.meets (s : Conn) (a : Arrival) (revents : Events) : Conn where
  http := { s.http with channel_ := { s.http.channel_ with revents_ := revents, events_ := 0 } }
  wire := { s.wire with
    reads := a.reads, writes := a.writes, now := a.now, epollCtl := a.epollCtl }
  epoll := s.epoll

/-- An `EPOLLIN` event; a connection that failed is closed and has no more events. -/
def arrive (w : World) (s : Conn) (a : Arrival) : Conn :=
  if s.http.error_ then s else handleEvents w (s.meets a EPOLLIN)

def arrivals (w : World) (s : Conn) (as : List Arrival) : Conn := as.foldl (arrive w) s

/-- Two connections are the same to their peers: the same output and calls, both failed
or none, and unless they failed the same members, but for channel and timer link. -/
structure SameOutcome (s t : Conn) : Prop where
  sent : t.wire.sent = s.wire.sent
  calls : t.wire.calls = s.wire.calls
  error_ : t.http.error_ = s.http.error_
  alike : s.http.error_ = false → Alike s t

theorem Alike.error_ {s t : Conn} (alike : Alike s t) : t.http.error_ = s.http.error_ := by
  obtain ⟨channel, timer, http⟩ := alike.http
  rw [http]; rfl

theorem Alike.same {s t : Conn} (alike : Alike s t) : SameOutcome s t :=
  ⟨alike.sent, alike.calls, alike.error_, fun _ => alike⟩

theorem FailsAlike.same {s t : Conn} (fails : FailsAlike s t) : SameOutcome s t :=
  ⟨fails.sent, fails.calls, fails.right.trans fails.left.symm,
    fun alive => nomatch fails.left.symm.trans alive⟩

namespace SameOutcome

theorem symm {s t : Conn} (same : SameOutcome s t) : SameOutcome t s :=
  ⟨same.sent.symm, same.calls.symm, same.error_.symm,
    fun alive => (same.alike (same.error_.symm.trans alive)).symm⟩

theorem trans {s t u : Conn} (first : SameOutcome s t) (second : SameOutcome t u) :
    SameOutcome s u :=
  ⟨second.sent.trans first.sent, second.calls.trans first.calls,
    second.error_.trans first.error_,
    fun alive => (first.alike alive).trans (second.alike (first.error_.trans alive))⟩

end SameOutcome

/-! ### One event -/

/-- The connection with nothing left to read. -/
def Conn.allRead (s : Conn) : Conn := { s with wire := { s.wire with reads := [] } }

/-- Reading is over before anything else is done. -/
theorem readBlock_delivered {w : World} {s : Conn} {chunk : Bytes}
    (whole : delivered s.wire.reads = some chunk) (small : chunk.length < 2 ^ 31)
    (here : s.http.Open) : readBlock w s = readBlock w (s.allRead.received chunk) := by
  have connected : s.http.connectionState_ ≠ .disconnecting := by
    rw [here.connectionState_]; decide
  -- The chunk is small enough for its length to be positive as an `int`.
  have num : ¬ ReadnResult.read_num
      ⟨some chunk.length, s.http.inBuffer_ ++ chunk, false, []⟩ < 0 := by
    change ¬ toInt chunk.length < 0
    rw [toInt_of_lt small]
    omega
  have read : readStage s = .ok (s.allRead.received chunk) := by
    unfold readStage
    rw [readn_delivered whole]
    exact (if_neg connected).trans (if_neg num)
  -- A second look at the socket finds nothing and goes on as well.
  have quiet : readStage (s.allRead.received chunk) = .ok (s.allRead.received chunk) := by
    rw [readStage_quiet (s := s.allRead.received chunk) rfl]
    exact if_neg connected
  unfold readBlock toAnalysis
  rw [read, quiet]

theorem handleRead_delivered {w : World} {s : Conn} {chunk : Bytes}
    (whole : delivered s.wire.reads = some chunk) (small : chunk.length < 2 ^ 31)
    (here : s.http.Open) : handleRead w s = handleRead w (s.allRead.received chunk) := by
  rw [handleRead_eq, handleRead_eq w (s.allRead.received chunk),
    readBlock_delivered whole small here]

theorem add_timer_alike {s : Conn} (quiet : Quiet s.wire) (timeout : Nat) :
    Alike s (add_timer s timeout) := by
  unfold add_timer addTimer
  split
  · exact ⟨⟨s.http.channel_, _, rfl⟩, rfl, rfl, rfl, quiet, quiet⟩
  · exact .refl quiet

theorem control_alike {s : Conn} (quiet : Quiet s.wire) : Alike s s.control := by
  unfold Conn.control
  dsimp only
  split
  · exact ⟨⟨s.http.channel_, s.http.timer_, rfl⟩, rfl, rfl, rfl, quiet, quiet⟩
  · exact ⟨⟨s.http.channel_, s.http.timer_, rfl⟩, rfl, rfl, rfl, quiet, quiet⟩

theorem epoll_mod_alike {s : Conn} (quiet : Quiet s.wire) (timeout : Nat) :
    Alike s (epoll_mod s timeout) := by
  -- The timer and the registration are not seen by the peer.
  have timed : Alike s (if timeout > 0 then add_timer s timeout else s) := by
    split
    · exact add_timer_alike quiet timeout
    · exact .refl quiet
  refine timed.trans ?_
  unfold epoll_mod
  generalize (if timeout > 0 then add_timer s timeout else s) = t at timed
  have cached : Alike t (equalAndUpdateLastEvents t).2 :=
    ⟨⟨_, t.http.timer_, rfl⟩, rfl, rfl, rfl, timed.right, timed.right⟩
  dsimp only
  split
  · exact cached
  · exact cached.trans (control_alike cached.right)

theorem Alike.poller {s t : Conn} (alike : Alike s t) (epoll : Epoll) :
    Alike s { t with epoll := epoll } :=
  ⟨alike.http, alike.sent, alike.calls, alike.served, alike.left, alike.right⟩

theorem epoll_add_alike {s : Conn} (quiet : Quiet s.wire) (timeout : Nat) :
    Alike s (epoll_add s timeout) := by
  have timed : Alike s (if timeout > 0 then
      { add_timer s timeout with epoll := { (add_timer s timeout).epoll with
        fd2http_ := Function.update (add_timer s timeout).epoll.fd2http_ s.http.fd_
          (add_timer s timeout).http.channel_.holder_ } } else s) := by
    split
    · exact (add_timer_alike quiet timeout).poller _
    · exact .refl quiet
  unfold epoll_add
  dsimp only
  generalize (if timeout > 0 then _ else s) = t at timed ⊢
  have cached : Alike t (equalAndUpdateLastEvents t).2 :=
    ⟨⟨_, t.http.timer_, rfl⟩, rfl, rfl, rfl, timed.right, timed.right⟩
  exact (timed.trans (cached.poller _)).trans (control_alike (cached.poller _).right)

theorem newEvent_alike {s : Conn} (quiet : Quiet s.wire) : Alike s (newEvent s) :=
  (setEvents_alike s quiet DEFAULT_EVENT).trans
    (epoll_add_alike (setEvents_alike s quiet DEFAULT_EVENT).right DEFAULT_EXPIRED_TIME)

/-- `handleConn` changes nothing a peer can tell, and closes a connection that failed. -/
theorem handleConn_same {s : Conn} (quiet : Quiet s.wire)
    (connected : s.http.error_ = false → s.http.connectionState_ = .connected) :
    SameOutcome s (handleConn s) := by
  have timed := seperateTimer_alike s quiet
  unfold handleConn
  dsimp only
  generalize seperateTimer s = t at timed
  obtain ⟨channel, timer, http⟩ := timed.http
  split
  next events timeout _ =>
    have told := setEvents_alike t timed.right events
    exact (timed.trans (told.trans (epoll_mod_alike told.right timeout))).same
  next => exact (timed.trans (setEvents_alike t timed.right _)).same
  next closes =>
    -- A connection that is there is only closed after a failure.
    have failed : s.http.error_ = true := by
      by_contra alive
      have alive' : s.http.error_ = false := by simpa using alive
      have here := connected alive'
      unfold HttpData.connExit at closes
      rw [http] at closes
      simp [HttpData.attach, alive', here] at closes
      repeat' split at closes
      all_goals cases closes
    have failed' : t.http.error_ = true := timed.error_.trans failed
    refine FailsAlike.same ⟨failed, ?_, ?_, ?_⟩
    · rw [handleClose_http]
      exact failed'
    · rw [handleClose_wire]
      exact timed.sent
    · rw [handleClose_wire]
      exact timed.calls

theorem dispatch_in (w : World) {s : Conn} (revents : s.http.channel_.revents_ = EPOLLIN) :
    dispatch w s = handleRead w s := by
  have reads : Events.has EPOLLIN (EPOLLIN ||| EPOLLPRI ||| EPOLLRDHUP) = true := by decide
  have writes : Events.has EPOLLIN EPOLLOUT = false := by decide
  unfold dispatch
  dsimp only
  rw [revents, reads, writes]
  rfl

/-- What one event does is, to the peer, what `handleRead` does with the bytes it brings. -/
theorem arrive_outcome {w : World} {s : Conn} {a : Arrival} {chunk : Bytes}
    (settled : Settled s) (brings : a.Brings chunk) (small : chunk.length < 2 ^ 31) :
    SameOutcome (handleRead w (s.received chunk)) (arrive w s a) := by
  -- An `EPOLLIN` event is `handleRead` and then `handleConn`.
  have begins : arrive w s a = handleConn (handleRead w ((s.meets a EPOLLIN).setEvents 0)) := by
    have late : returnsEarly EPOLLIN = false := by decide
    unfold arrive handleEvents
    rw [if_neg (by rw [settled.here.error_]; decide)]
    dsimp only
    rw [dispatch_in w rfl]
    change (if returnsEarly EPOLLIN = true then _ else _) = _
    rw [late]
    rfl
  have opened : ((s.meets a EPOLLIN).setEvents 0).http.Open :=
    ⟨settled.here.error_, settled.here.connectionState_⟩
  have same : Alike (s.received chunk)
      (((s.meets a EPOLLIN).setEvents 0).allRead.received chunk) :=
    ⟨⟨_, s.http.timer_, rfl⟩, rfl, rfl, rfl, settled.quiet, rfl, brings.writes⟩
  have read := handleRead_alike w same
  rw [begins, handleRead_delivered (s := (s.meets a EPOLLIN).setEvents 0) brings.reads small opened]
  refine read.same.trans (handleConn_same read.right fun _ => ?_)
  exact (handleRead_connectionState w same.right).trans opened.connectionState_

end LightAgent
